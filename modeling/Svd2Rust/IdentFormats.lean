import Mathlib.Data.List.Induction
import Svd2Rust.Identifiers

/-!
# Where the identifier formats come from

`parse_configs` starts from a theme, puts the formats of the configuration file over it
and then goes through the `-f` flags; `generate` puts the formats it is given over a theme
once more.  The functions that make identifiers look a format up by its name and panic if
there is none.

`parseConfigs_precedence` says what becomes of a name: the last flag that is accepted for it
counts, and which flags are accepted does not depend on the flags before.
`renderFlag_roundTrip` is about the form `type:prefix:case:suffix` of a flag.  By
`entryPoints_agree` both ways into the generator end with the same formats, one for each
kind of identifier.
-/

namespace Svd2Rust

open RustStrings

/-- `HashMap<String, IdentFormat>`, which is only looked up. -/
abbrev IdentFormats := String → Option IdentFormat

/-- `HashMap::from`. -/
def IdentFormats.ofEntries (entries : List (String × IdentFormat)) : IdentFormats :=
  fun name => entries.lookup name

/-- `extend`: the entries of the other map replace those of the first. -/
def IdentFormats.extend (formats other : IdentFormats) : IdentFormats :=
  fun name => (other name).or (formats name)

/-- `insert`. -/
def IdentFormats.insert (formats : IdentFormats) (name : String) (format : IdentFormat) :
    IdentFormats :=
  fun other => if other = name then some format else formats other

/-- `IdentFormatError`. -/
inductive IdentFormatError where
  | unknownCase (c : String)
  | other
deriving DecidableEq, Repr

/-- `Case::parse`. -/
def Case.parse (c : String) : Except IdentFormatError (Option Case) :=
  if c ∈ ["", "unchanged", "svd"] then .ok none
  else if c ∈ ["p", "pascal", "type"] then .ok (some .pascal)
  else if c ∈ ["s", "snake", "lower"] then .ok (some .snake)
  else if c ∈ ["c", "constant", "upper"] then .ok (some .constant)
  else .error (.unknownCase c)

/-- `IdentFormat::parse`. -/
def IdentFormat.parse (s : String) : Except IdentFormatError IdentFormat :=
  match (splitChars (· == ':') s.toList).map String.ofList with
  | p :: c :: s :: _ => (Case.parse c).map fun case => ⟨case, p, s⟩
  | [p, c] => (Case.parse c).map fun case => ⟨case, p, ""⟩
  | [c] => (Case.parse c).map fun case => ⟨case, "", ""⟩
  | [] => .error .other

/-! ## Themes -/

/-- The names of the formats. -/
def IdentKind.key : IdentKind → String
  | .fieldAccessor => "field_accessor"
  | .registerAccessor => "register_accessor"
  | .enumValueAccessor => "enum_value_accessor"
  | .clusterAccessor => "cluster_accessor"
  | .registerMod => "register_mod"
  | .clusterMod => "cluster_mod"
  | .peripheralMod => "peripheral_mod"
  | .peripheralFeature => "peripheral_feature"
  | .fieldReader => "field_reader"
  | .fieldWriter => "field_writer"
  | .enumName => "enum_name"
  | .enumReadName => "enum_read_name"
  | .enumWriteName => "enum_write_name"
  | .enumValue => "enum_value"
  | .interrupt => "interrupt"
  | .register => "register"
  | .cluster => "cluster"
  | .registerSpec => "register_spec"
  | .peripheral => "peripheral"
  | .peripheralSingleton => "peripheral_singleton"
  | .peripheralSpec => "peripheral_spec"

/-- `IdentFormats::common`. -/
def IdentFormats.common : IdentFormats :=
  let snake : IdentFormat := ⟨some .snake, "", ""⟩
  .ofEntries [("field_accessor", snake), ("register_accessor", snake),
    ("enum_value_accessor", snake), ("cluster_accessor", snake), ("register_mod", snake),
    ("cluster_mod", snake), ("peripheral_mod", snake), ("peripheral_feature", snake)]

/-- `IdentFormats::default_theme`. -/
def IdentFormats.defaultTheme : IdentFormats :=
  let pascal : IdentFormat := ⟨some .pascal, "", ""⟩
  IdentFormats.common.extend <| .ofEntries [
    ("field_reader", { pascal with suffixText := "R" }),
    ("field_writer", { pascal with suffixText := "W" }),
    ("enum_name", pascal), ("enum_read_name", pascal),
    ("enum_write_name", { pascal with suffixText := "WO" }), ("enum_value", pascal),
    ("interrupt", ⟨none, "", ""⟩), ("register", pascal), ("cluster", pascal),
    ("register_spec", { pascal with suffixText := "Spec" }), ("peripheral", pascal),
    ("peripheral_singleton", ⟨some .snake, "", ""⟩),
    ("peripheral_spec", { pascal with suffixText := "Spec" })]

/-- `IdentFormats::legacy_theme`. -/
def IdentFormats.legacyTheme : IdentFormats :=
  let constant : IdentFormat := ⟨some .constant, "", ""⟩
  IdentFormats.common.extend <| .ofEntries [
    ("field_reader", { constant with suffixText := "_R" }),
    ("field_writer", { constant with suffixText := "_W" }),
    ("enum_name", { constant with suffixText := "_A" }),
    ("enum_read_name", { constant with suffixText := "_A" }),
    ("enum_write_name", { constant with suffixText := "_AW" }), ("enum_value", constant),
    ("interrupt", constant), ("cluster", constant), ("register", constant),
    ("register_spec", { constant with suffixText := "_SPEC" }), ("peripheral", constant),
    ("peripheral_singleton", constant),
    ("peripheral_spec", { constant with suffixText := "_SPEC" })]

/-- `IdentFormatsTheme`. -/
inductive IdentFormatsTheme where
  | legacy
deriving DecidableEq, Repr

def themeFormats : Option IdentFormatsTheme → IdentFormats
  | some .legacy => IdentFormats.legacyTheme
  | none => IdentFormats.defaultTheme

/-! ## The flags -/

/-- `str::split_once`. -/
def splitOnce (sep : Char) : List Char → Option (List Char × List Char)
  | [] => none
  | c :: cs =>
      if c = sep then some ([], cs)
      else (splitOnce sep cs).map fun (before, after) => (c :: before, after)

/-- The formats so far and the warnings that were logged. -/
structure FlagState where
  formats : IdentFormats
  warnings : List String

def FlagState.warn (st : FlagState) (text : String) : FlagState :=
  { st with warnings := st.warnings ++ [text] }

/-- The round for one `-f` flag. -/
def applyFlag (st : FlagState) (fs : String) : FlagState :=
  match splitOnce ':' fs.toList with
  | some (n, fmt) =>
      if (st.formats (String.ofList n)).isSome then
        match IdentFormat.parse (String.ofList fmt) with
        | .ok format => { st with formats := st.formats.insert (String.ofList n) format }
        | .error (.unknownCase c) => st.warn ("Ident case `" ++ c ++ "` is unknown")
        | .error .other =>
            st.warn ("Can't parse identifier format string `" ++ String.ofList fmt ++ "`")
      else st.warn ("Ident format name `" ++ String.ofList n ++ "` is unknown")
  | none => st.warn ("Can't parse identifier format string `" ++ fs ++ "`")

/-- `parse_configs`, as far as it is about formats: `configured` are those of the
configuration file. -/
def parseConfigs (theme : Option IdentFormatsTheme) (configured : IdentFormats)
    (flags : List String) : FlagState :=
  flags.foldl applyFlag ⟨(themeFormats theme).extend configured, []⟩

/-- The formats `generate` works with, for a configuration with the formats `configured`. -/
def generateFormats (theme : Option IdentFormatsTheme) (configured : IdentFormats) : IdentFormats :=
  (themeFormats theme).extend configured

/-- `util::ident`, with the look-up. -/
def identIn (crates : Crates) (formats : IdentFormats) (name key : String) : Gen String :=
  match formats key with
  | some format => newIdent crates (format.sanitize crates name)
  | none => panicking "Missing \x7bfmt\x7d entry"

/-! ## What the flags do -/

/-- The format a flag sets, or the warning about it, where `known` are the names that have
a format. -/
def readFlag (known : String → Bool) (fs : String) : Except String (String × IdentFormat) :=
  match splitOnce ':' fs.toList with
  | some (n, fmt) =>
      if known (String.ofList n) then
        match IdentFormat.parse (String.ofList fmt) with
        | .ok format => .ok (String.ofList n, format)
        | .error (.unknownCase c) => .error ("Ident case `" ++ c ++ "` is unknown")
        | .error .other =>
            .error ("Can't parse identifier format string `" ++ String.ofList fmt ++ "`")
      else .error ("Ident format name `" ++ String.ofList n ++ "` is unknown")
  | none => .error ("Can't parse identifier format string `" ++ fs ++ "`")

/-- What an accepted flag sets `name` to. -/
def setsTo (known : String → Bool) (name fs : String) : Option IdentFormat :=
  match readFlag known fs with
  | .ok (n, format) => if n = name then some format else none
  | .error _ => none

/-- The warning about a flag that is not accepted. -/
def flagWarning (known : String → Bool) (fs : String) : Option String :=
  match readFlag known fs with
  | .ok _ => none
  | .error text => some text

section Flags

variable {known : String → Bool}

/-- A flag that is accepted sets a known name. -/
theorem known_of_setsTo {name fs : String} {format : IdentFormat}
    (h : setsTo known name fs = some format) : known name = true := by
  unfold setsTo readFlag at h
  cases hsplit : splitOnce ':' fs.toList with
  | none => simp [hsplit] at h
  | some parts =>
      obtain ⟨n, fmt⟩ := parts
      by_cases hknown : known (String.ofList n) = true
      · cases hparse : IdentFormat.parse (String.ofList fmt) with
        | ok f =>
            simp only [hsplit, hknown, if_true, hparse] at h
            obtain ⟨rfl, -⟩ := Option.ite_none_right_eq_some.mp h
            exact hknown
        | error e => cases e <;> simp [hsplit, hknown, hparse] at h
      · simp [hsplit, hknown] at h

/-- One round. -/
theorem applyFlag_eq {st : FlagState} (hknown : ∀ name, (st.formats name).isSome = known name)
    (fs : String) :
    applyFlag st fs =
      ⟨fun name => (setsTo known name fs).or (st.formats name),
        st.warnings ++ (flagWarning known fs).toList⟩ := by
  unfold applyFlag setsTo flagWarning readFlag
  cases hsplit : splitOnce ':' fs.toList with
  | none => simp [FlagState.warn]
  | some parts =>
      obtain ⟨n, fmt⟩ := parts
      simp only [hknown]
      by_cases hn : known (String.ofList n) = true
      · cases hparse : IdentFormat.parse (String.ofList fmt) with
        | ok f =>
            simp only [hn, if_true, Option.toList_none, List.append_nil, FlagState.mk.injEq, and_true]
            funext name
            by_cases hname : name = String.ofList n
            · simp [IdentFormats.insert, hname]
            · simp [IdentFormats.insert, hname, Ne.symm hname]
        | error e => cases e <;> simp [hn, FlagState.warn]
      · simp [hn, FlagState.warn]

/-- What the last accepted flag sets a name to. -/
def lastSet (known : String → Bool) (flags : List String) (name : String) : Option IdentFormat :=
  flags.reverse.findSome? (setsTo known name)

theorem lastSet_append (flags later : List String) (name : String) :
    lastSet known (flags ++ later) name = (lastSet known later name).or (lastSet known flags name) := by
  rw [lastSet, List.reverse_append, List.findSome?_append]
  rfl

theorem lastSet_singleton (fs name : String) : lastSet known [fs] name = setsTo known name fs := by
  simp [lastSet]

theorem known_of_lastSet {flags : List String} {name : String} {format : IdentFormat}
    (h : lastSet known flags name = some format) : known name = true := by
  obtain ⟨fs, -, hset⟩ := List.exists_of_findSome?_eq_some h
  exact known_of_setsTo hset

/-- **All rounds.**  The names that have a format stay the same, so each flag is read as
if it were the first. -/
theorem foldl_applyFlag {st : FlagState} (hknown : ∀ name, (st.formats name).isSome = known name)
    (flags : List String) :
    flags.foldl applyFlag st =
      ⟨fun name => (lastSet known flags name).or (st.formats name),
        st.warnings ++ flags.filterMap (flagWarning known)⟩ := by
  induction flags using List.reverseRecOn with
  | nil => simp [lastSet]
  | append_singleton flags fs ih =>
      have hstays : ∀ name, ((flags.foldl applyFlag st).formats name).isSome = known name := by
        intro name
        rw [ih]
        cases hset : lastSet known flags name with
        | none => simpa only [hset, Option.none_or] using hknown name
        | some format =>
            simp only [hset, Option.some_or, Option.isSome_some]
            exact (known_of_lastSet hset).symm
      have hwarning : [fs].filterMap (flagWarning known) = (flagWarning known fs).toList := by
        cases h : flagWarning known fs <;> simp [h]
      rw [List.foldl_append, List.foldl_cons, List.foldl_nil, applyFlag_eq hstays, ih]
      simp only [lastSet_append, lastSet_singleton, Option.or_assoc, List.filterMap_append,
        List.append_assoc, hwarning]

end Flags

section Configs

variable (theme : Option IdentFormatsTheme) (configured : IdentFormats)

/-- The names that flags may set: those of the theme and of the configuration file. -/
def knownNames (name : String) : Bool := (generateFormats theme configured name).isSome

theorem parseConfigs_eq (flags : List String) :
    parseConfigs theme configured flags =
      ⟨fun name => (lastSet (knownNames theme configured) flags name).or
          (generateFormats theme configured name),
        flags.filterMap (flagWarning (knownNames theme configured))⟩ :=
  foldl_applyFlag (fun _ => rfl) flags

/-- **Precedence.**  A name has the format of the last flag that is accepted for it, else that
of the configuration file, else that of the theme.  Whether a flag is accepted does not depend
on the other flags, and there is a warning about each that is not.  A flag only ever replaces
the format of a name that has one, so the names that are known stay the same through the loop. -/
theorem parseConfigs_precedence (flags : List String) :
    (∀ name, (parseConfigs theme configured flags).formats name =
      (lastSet (knownNames theme configured) flags name).or
        ((configured name).or (themeFormats theme name))) ∧
    (parseConfigs theme configured flags).warnings =
      flags.filterMap (flagWarning (knownNames theme configured)) := by
  rw [parseConfigs_eq]
  exact ⟨fun name => rfl, rfl⟩

end Configs

/-! ## Formats for all kinds -/

theorem isSome_lookup {α β : Type} [DecidableEq α] (entries : List (α × β)) (a : α) :
    (entries.lookup a).isSome = decide (a ∈ entries.map Prod.fst) := by
  induction entries with
  | nil => rfl
  | cons entry rest ih =>
      obtain ⟨b, value⟩ := entry
      rw [List.lookup_cons]
      cases h : a == b with
      | true => simp [eq_of_beq h]
      | false =>
          have hne : a ≠ b := by simpa using h
          simp [ih, hne]

/-- Maps over `common` with entries for the same names have the same names. -/
theorem isSome_extend_perm {entries entries' : List (String × IdentFormat)}
    (hperm : (entries.map Prod.fst).Perm (entries'.map Prod.fst)) (name : String) :
    (IdentFormats.common.extend (.ofEntries entries) name).isSome =
      (IdentFormats.common.extend (.ofEntries entries') name).isSome := by
  simp only [IdentFormats.extend, IdentFormats.ofEntries, Option.isSome_or, isSome_lookup,
    hperm.mem_iff]

theorem themeFormats_isSome (theme theme' : Option IdentFormatsTheme) (name : String) :
    (themeFormats theme name).isSome = (themeFormats theme' name).isSome := by
  have hlegacy : (IdentFormats.legacyTheme name).isSome = (IdentFormats.defaultTheme name).isSome :=
    isSome_extend_perm (by decide +kernel) name
  have hdefault : ∀ theme, (themeFormats theme name).isSome =
      (IdentFormats.defaultTheme name).isSome := by
    intro theme
    cases theme with
    | none => rfl
    | some theme => exact hlegacy
  rw [hdefault theme, hdefault theme']

/-- The default theme is the one the other modules use. -/
theorem defaultTheme_key (kind : IdentKind) :
    IdentFormats.defaultTheme kind.key = some (Svd2Rust.defaultTheme kind) := by
  cases kind <;> rfl

theorem themeFormats_key (theme : Option IdentFormatsTheme) (kind : IdentKind) :
    (themeFormats theme kind.key).isSome = true := by
  rw [themeFormats_isSome theme none, themeFormats, defaultTheme_key]
  rfl

/-- A name of the theme keeps a format. -/
theorem parseConfigs_isSome {theme : Option IdentFormatsTheme} {configured : IdentFormats}
    {flags : List String} {name : String} (h : (themeFormats theme name).isSome = true) :
    ((parseConfigs theme configured flags).formats name).isSome = true := by
  rw [parseConfigs_eq]
  simp only [generateFormats, IdentFormats.extend, Option.isSome_or, h, Bool.or_true]

/-- `generate` keeps the formats of a configuration from `parse_configs`, whatever theme
it puts them over. -/
theorem generateFormats_parseConfigs (theme theme' : Option IdentFormatsTheme)
    (configured : IdentFormats) (flags : List String) :
    generateFormats theme' (parseConfigs theme configured flags).formats =
      (parseConfigs theme configured flags).formats := by
  funext name
  show ((parseConfigs theme configured flags).formats name).or (themeFormats theme' name) = _
  cases hformat : (parseConfigs theme configured flags).formats name with
  | some format => rfl
  | none =>
      rw [Option.none_or]
      cases htheme : themeFormats theme' name with
      | none => rfl
      | some format =>
          -- then the other theme has one, too, which the flags keep
          have hsome : (themeFormats theme name).isSome = true := by
            rw [themeFormats_isSome theme theme', htheme]
            rfl
          have hkept := @parseConfigs_isSome theme configured flags name hsome
          rw [hformat] at hkept
          cases hkept

/-- **Entry points.**  On both ways into the generator every look-up of a kind of
identifier finds a format, the same one, so that `ident` does what it does in a
configuration with these formats.  Every theme has a format for each kind, and neither the
flags nor the second merge remove one: the look-up never panics, and `ident` does only
where `Ident::new` refuses the text. -/
theorem entryPoints_agree (theme theme' : Option IdentFormatsTheme) (configured : IdentFormats)
    (flags : List String) :
    ∃ formatOf : IdentKind → IdentFormat,
      (∀ kind : IdentKind,
        (parseConfigs theme configured flags).formats kind.key = some (formatOf kind) ∧
          generateFormats theme' (parseConfigs theme configured flags).formats kind.key =
            some (formatOf kind)) ∧
      ∀ config : Config, config.identFormats = formatOf → ∀ crates name (kind : IdentKind),
        identIn crates (parseConfigs theme configured flags).formats name kind.key =
            ident crates config name kind ∧
          identIn crates (generateFormats theme' (parseConfigs theme configured flags).formats) name
            kind.key = ident crates config name kind := by
  have hall : ∀ kind : IdentKind, ∃ format,
      (parseConfigs theme configured flags).formats kind.key = some format :=
    fun kind => Option.isSome_iff_exists.mp (parseConfigs_isSome (themeFormats_key theme kind))
  choose formatOf hformat using hall
  rw [generateFormats_parseConfigs]
  refine ⟨formatOf, fun kind => ⟨hformat kind, hformat kind⟩, ?_⟩
  intro config hconfig crates name kind
  rw [identIn, hformat kind, ident, identText, hconfig]
  exact ⟨rfl, rfl⟩

/-! ## Flags that spell a format -/

/-- The flag `type:prefix:case:suffix` for a format, with a word for its case. -/
def renderFlag (kind : IdentKind) (word : String) (format : IdentFormat) : String :=
  kind.key ++ ":" ++ format.prefixText ++ ":" ++ word ++ ":" ++ format.suffixText

/-- Such flags for formats of some kinds. -/
def spelledFlags (target : IdentKind → IdentFormat) (word : IdentKind → String)
    (kinds : List IdentKind) : List String :=
  kinds.map fun kind => renderFlag kind (word kind) (target kind)

/-- A format that a flag can spell. -/
structure IdentFormat.Spellable (format : IdentFormat) : Prop where
  prefixText : ':' ∉ format.prefixText.toList
  suffixText : ':' ∉ format.suffixText.toList

theorem splitOnce_append {sep : Char} {before : List Char} (h : sep ∉ before) (after : List Char) :
    splitOnce sep (before ++ sep :: after) = some (before, after) := by
  induction before with
  | nil => simp [splitOnce]
  | cons c cs ih =>
      have hne : c ≠ sep := fun heq => h (heq ▸ List.mem_cons_self)
      have hrest := ih fun hmem => h (List.mem_cons_of_mem _ hmem)
      simp [splitOnce, hne, hrest]

/-- No word for a case has a colon. -/
theorem colon_not_mem_case {word : String} {case : Option Case} (h : Case.parse word = .ok case) :
    ':' ∉ word.toList := by
  have hall : ∀ w ∈ ["", "unchanged", "svd", "p", "pascal", "type", "s", "snake", "lower", "c",
      "constant", "upper"], ':' ∉ w.toList := by decide +kernel
  refine hall word ?_
  by_contra hword
  simp only [List.mem_cons, List.not_mem_nil, or_false, not_or] at hword
  simp [Case.parse, hword] at h

theorem IdentFormat.parse_rendered {format : IdentFormat} (hspell : format.Spellable) {word : String}
    (hword : Case.parse word = .ok format.case) :
    IdentFormat.parse (format.prefixText ++ ":" ++ word ++ ":" ++ format.suffixText) =
      .ok format := by
  have hkeep : ∀ {cs : List Char}, ':' ∉ cs → ∀ c ∈ cs, (c == ':') = false := by
    intro cs hcs c hc
    have hne : c ≠ ':' := fun heq => hcs (heq ▸ hc)
    simpa using hne
  have hsplit : splitChars (· == ':')
      (format.prefixText ++ ":" ++ word ++ ":" ++ format.suffixText).toList =
        [format.prefixText.toList, word.toList, format.suffixText.toList] := by
    have hchars : (format.prefixText ++ ":" ++ word ++ ":" ++ format.suffixText).toList =
        format.prefixText.toList ++ ':' :: (word.toList ++ ':' :: format.suffixText.toList) := by
      simp
    rw [hchars, splitChars_append_sep (hkeep hspell.prefixText) rfl,
      splitChars_append_sep (hkeep (colon_not_mem_case hword)) rfl,
      splitChars_of_none (hkeep hspell.suffixText)]
  rw [IdentFormat.parse, hsplit]
  simp [hword, Except.map]

/-- A flag that spells a format of a known name is accepted. -/
theorem readFlag_renderFlag {known : String → Bool} {kind : IdentKind} (hknown : known kind.key = true)
    {format : IdentFormat} (hspell : format.Spellable) {word : String}
    (hword : Case.parse word = .ok format.case) :
    readFlag known (renderFlag kind word format) = .ok (kind.key, format) := by
  have hkey : ':' ∉ kind.key.toList := by cases kind <;> decide +kernel
  have hflag : (renderFlag kind word format).toList = kind.key.toList ++ ':' ::
      (format.prefixText ++ ":" ++ word ++ ":" ++ format.suffixText).toList := by
    simp [renderFlag]
  have hparse := IdentFormat.parse_rendered hspell hword
  rw [readFlag, hflag, splitOnce_append hkey]
  simp only [String.ofList_toList, hknown, if_true, hparse]

section RoundTrip

variable {theme : Option IdentFormatsTheme} {configured : IdentFormats}
  {target : IdentKind → IdentFormat} {word : IdentKind → String}

theorem knownNames_key (kind : IdentKind) : knownNames theme configured kind.key = true := by
  simp only [knownNames, generateFormats, IdentFormats.extend, Option.isSome_or, themeFormats_key,
    Bool.or_true]

/-- Different kinds have different names. -/
theorem IdentKind.key_inj {kind kind' : IdentKind} (h : kind.key = kind'.key) : kind = kind' := by
  let kinds : List IdentKind := [.fieldAccessor, .registerAccessor, .enumValueAccessor,
    .clusterAccessor, .registerMod, .clusterMod, .peripheralMod, .peripheralFeature, .fieldReader,
    .fieldWriter, .enumName, .enumReadName, .enumWriteName, .enumValue, .interrupt, .register,
    .cluster, .registerSpec, .peripheral, .peripheralSingleton, .peripheralSpec]
  have hinj : ∀ k ∈ kinds, ∀ k' ∈ kinds, k.key = k'.key → k = k' := by decide +kernel
  have hmem : ∀ k, k ∈ kinds := by
    intro k
    cases k <;> decide
  exact hinj kind (hmem kind) kind' (hmem kind') h

section Spelled

variable (hspell : ∀ kind, (target kind).Spellable)
  (hword : ∀ kind, Case.parse (word kind) = .ok (target kind).case)

include hspell hword

theorem setsTo_renderFlag (kind : IdentKind) (name : String) :
    setsTo (knownNames theme configured) name (renderFlag kind (word kind) (target kind)) =
      if kind.key = name then some (target kind) else none := by
  rw [setsTo, readFlag_renderFlag (knownNames_key kind) (hspell kind) (hword kind)]

/-- The induction is from the last flag, which counts. -/
theorem lastSet_renderFlags (kinds : List IdentKind) :
    (∀ kind ∈ kinds, lastSet (knownNames theme configured)
        (spelledFlags target word kinds) kind.key = some (target kind)) ∧
      ∀ name, (∀ kind ∈ kinds, kind.key ≠ name) → lastSet (knownNames theme configured)
        (spelledFlags target word kinds) name = none := by
  induction kinds using List.reverseRecOn with
  | nil => exact ⟨List.forall_mem_nil _, fun _ _ => rfl⟩
  | append_singleton kinds last ih =>
      obtain ⟨hset, hother⟩ := ih
      simp only [spelledFlags, List.map_append, List.map_singleton, lastSet_append,
        lastSet_singleton, setsTo_renderFlag hspell hword] at hset hother ⊢
      constructor
      · intro kind hkind
        by_cases hlast : last = kind
        · simp [hlast]
        · have hmem := (List.mem_append.mp hkind).resolve_right
            fun h => hlast (List.mem_singleton.mp h).symm
          have hne : last.key ≠ kind.key := fun h => hlast (IdentKind.key_inj h)
          rw [if_neg hne, Option.none_or, hset kind hmem]
      · intro name hname
        have hne := hname last (List.mem_append_right _ (List.mem_singleton.mpr rfl))
        rw [if_neg hne, Option.none_or,
          hother name fun kind hkind => hname kind (List.mem_append_left _ hkind)]

/-- **Round trip.**  Flags that spell formats set them, whatever flags stand before; they
change no other name and nothing is said about them.  The parts have no colon, so a flag
splits where it was joined, and its name is one of those every theme has. -/
theorem renderFlag_roundTrip (earlier : List String) (kinds : List IdentKind) :
    (∀ kind ∈ kinds, (parseConfigs theme configured
        (earlier ++ spelledFlags target word kinds)).formats kind.key = some (target kind)) ∧
      (∀ name, (∀ kind ∈ kinds, kind.key ≠ name) →
        (parseConfigs theme configured (earlier ++ spelledFlags target word kinds)).formats name =
          (parseConfigs theme configured earlier).formats name) ∧
      (parseConfigs theme configured (earlier ++ spelledFlags target word kinds)).warnings =
        (parseConfigs theme configured earlier).warnings := by
  obtain ⟨hset, hother⟩ := @lastSet_renderFlags theme configured target word hspell hword kinds
  have hsilent : (spelledFlags target word kinds).filterMap
      (flagWarning (knownNames theme configured)) = [] := by
    rw [List.filterMap_eq_nil_iff]
    intro fs hfs
    obtain ⟨kind, -, rfl⟩ := List.mem_map.mp hfs
    rw [flagWarning, readFlag_renderFlag (knownNames_key kind) (hspell kind) (hword kind)]
  simp only [parseConfigs_eq, lastSet_append, List.filterMap_append, hsilent, List.append_nil]
  refine ⟨fun kind hkind => ?_, fun name hname => ?_, trivial⟩
  · rw [hset kind hkind]
    rfl
  · rw [hother name hname]
    rfl

end Spelled

end RoundTrip

/-- The flag that the documentation gives for the old names of field readers. -/
example : renderFlag .fieldReader "c" ⟨some .constant, "", "_R"⟩ = "field_reader::c:_R" := by
  decide +kernel

theorem renderFlag_roundTrip_reader :
    (parseConfigs none (fun _ => none) ["enum_name:E", "field_reader::c:_R"]).formats "field_reader" =
      some ⟨some .constant, "", "_R"⟩ :=
  (@renderFlag_roundTrip none (fun _ => none) (fun _ => ⟨some .constant, "", "_R"⟩) (fun _ => "c")
    (fun _ => ⟨by decide +kernel, by decide +kernel⟩) (fun _ => rfl) ["enum_name:E"]
    [.fieldReader]).1 .fieldReader List.mem_cons_self

end Svd2Rust
