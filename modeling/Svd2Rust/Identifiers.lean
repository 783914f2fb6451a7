import Svd2Rust.ExternalCrates

/-!
# Configuration and identifier formatting

`util.rs`: how a name of the SVD file becomes an identifier of the generated
crate, and how `dim` placeholders and group prefixes enter a name.
-/

namespace Svd2Rust

open RustStrings

/-- `config::Case`. -/
inductive Case where
  | constant
  | pascal
  | snake
deriving DecidableEq, Repr

/-- `config::IdentFormat`; no case means the name is left as it is. -/
structure IdentFormat where
  case : Option Case
  prefixText : String
  suffixText : String
deriving DecidableEq, Repr

/-- The keys of `config::IdentFormats`, all of which every theme defines. -/
inductive IdentKind where
  | fieldAccessor
  | registerAccessor
  | enumValueAccessor
  | clusterAccessor
  | registerMod
  | clusterMod
  | peripheralMod
  | peripheralFeature
  | fieldReader
  | fieldWriter
  | enumName
  | enumReadName
  | enumWriteName
  | enumValue
  | interrupt
  | register
  | cluster
  | registerSpec
  | peripheral
  | peripheralSingleton
  | peripheralSpec
deriving DecidableEq, Repr

/-- The part of `config::Config` the modelled functions read. -/
structure Config where
  ignoreGroups : Bool
  keepList : Bool
  maxClusterSize : Bool
  fieldNamesForEnums : Bool
  identFormats : IdentKind → IdentFormat

/-- `IdentFormats::default_theme`. -/
def defaultTheme : IdentKind → IdentFormat
  | .fieldAccessor | .registerAccessor | .enumValueAccessor | .clusterAccessor => ⟨some .snake, "", ""⟩
  | .registerMod | .clusterMod | .peripheralMod | .peripheralFeature => ⟨some .snake, "", ""⟩
  | .fieldReader => ⟨some .pascal, "", "R"⟩
  | .fieldWriter => ⟨some .pascal, "", "W"⟩
  | .enumName | .enumReadName | .enumValue => ⟨some .pascal, "", ""⟩
  | .enumWriteName => ⟨some .pascal, "", "WO"⟩
  | .interrupt => ⟨none, "", ""⟩
  | .register | .cluster | .peripheral => ⟨some .pascal, "", ""⟩
  | .registerSpec | .peripheralSpec => ⟨some .pascal, "", "Spec"⟩
  | .peripheralSingleton => ⟨some .snake, "", ""⟩

/-- `BLACKLIST_CHARS`. -/
def blacklistChars : List Char := ['(', ')', '[', ']', '/', ' ', '-']

/-- `std::borrow::Cow`: a borrowed name may keep its case, an owned one is
always converted. -/
inductive Cow where
  | borrowed (s : String)
  | owned (s : String)

def Cow.text : Cow → String
  | .borrowed s => s
  | .owned s => s

/-- The free function `sanitize`. -/
def sanitize (s : String) : Cow :=
  if s.toList.any (· ∈ blacklistChars) then .owned (removeChars blacklistChars s) else .borrowed s

/-- `sanitize_keyword`'s list. -/
def keywords : List String :=
  ["abstract", "alignof", "as", "async", "await", "become", "box", "break", "const",
   "continue", "crate", "do", "dyn", "else", "enum", "extern", "false", "final", "fn", "for",
   "gen", "if", "impl", "in", "let", "loop", "macro", "match", "mod", "move", "mut",
   "offsetof", "override", "priv", "proc", "pub", "pure", "ref", "return", "self", "sizeof",
   "static", "struct", "super", "trait", "true", "try", "type", "typeof", "unsafe", "unsized",
   "use", "virtual", "where", "while", "yield"]

def sanitizeKeyword (sc : String) : String :=
  if sc ∈ keywords then sc ++ "_" else sc

section Formats

variable (crates : Crates)

/-- The loop of `to_pascal_case`: a part is followed by an underscore when it
would fuse two numbers or when an empty part follows. -/
def pascalParts : List (List Char) → String
  | [] => ""
  | part :: rest =>
      if part = [] then pascalParts rest
      else
        let tail := match rest with
          | next :: _ =>
              if (part.getLast?.any crates.isNumeric && next.head?.any crates.isNumeric) || next = []
              then "_" else ""
          | [] => ""
        crates.toPascalCase (String.ofList part) ++ tail ++ pascalParts rest

/-- `to_pascal_case`. -/
def toPascalCase (s : String) : String :=
  if '_' ∈ s.toList then
    let parts := splitChars (· == '_') s.toList
    (if parts.head? = some [] then "_" else "") ++ pascalParts crates parts
  else crates.toPascalCase s

/-- `Case::cow_to_case`. -/
def Case.cowToCase (case : Case) (cow : Cow) : String :=
  let keeps := match case with
    | .constant => crates.isConstantCase
    | .pascal => crates.isPascalCase
    | .snake => crates.isSnakeCase
  let converts := match case with
    | .constant => crates.toConstantCase
    | .pascal => toPascalCase crates
    | .snake => crates.toSnakeCase
  match cow with
  | .borrowed s => if keeps s then s else converts s
  | .owned s => converts s

/-- `IdentFormat::apply`. -/
def IdentFormat.apply (format : IdentFormat) (name : String) : String :=
  let name := match format.case with
    | some case => case.cowToCase crates (sanitize name)
    | none => (sanitize name).text
  format.prefixText ++ name ++ format.suffixText

/-- `IdentFormat::sanitize`. -/
def IdentFormat.sanitize (format : IdentFormat) (name : String) : String :=
  let s := format.apply crates name
  let s := if s.toList.head?.any Char.isDigit then "_" ++ s else s
  match format.case with
  | some .snake | none => sanitizeKeyword s
  | _ => s

/-- What `Ident::new` accepts: a letter or an underscore, and then letters, digits and
underscores, as Unicode has them.  A keyword is accepted, the empty text and a number are not. -/
def isIdent (s : String) : Bool :=
  match s.toList with
  | [] => false
  | c :: cs => (c == '_' || crates.isXidStart c) && cs.all crates.isXidContinue

/-- `Ident::new`, which panics on any other text. -/
def newIdent (s : String) : Gen String :=
  if isIdent crates s then .ok s else panicking (s ++ " is not a valid Ident")

/-- The text that `util::ident` makes of a name. -/
def identText (config : Config) (name : String) (kind : IdentKind) : String :=
  (config.identFormats kind).sanitize crates name

/-- `util::ident`.  A name keeps the characters that no format removes, so that the text of
some names is refused: the `%` of an array name, for one. -/
def ident (config : Config) (name : String) (kind : IdentKind) : Gen String :=
  newIdent crates (identText crates config name kind)

variable {crates}

theorem newIdent_ok {s t : String} : newIdent crates s = .ok t ↔ isIdent crates s = true ∧ s = t := by
  unfold newIdent
  split
  · simp [*]
  · simp [*]

/-- An identifier that is made has the text of its name. -/
theorem ident_ok {config : Config} {name : String} {kind : IdentKind} {t : String} :
    ident crates config name kind = .ok t ↔
      isIdent crates (identText crates config name kind) = true ∧
        identText crates config name kind = t := newIdent_ok

theorem ident_text {config : Config} {name : String} {kind : IdentKind} {t : String}
    (h : ident crates config name kind = .ok t) : identText crates config name kind = t :=
  (ident_ok.mp h).2

/-- A computation that goes on with an identifier returns if the name makes one and it returns
for the text. -/
theorem ident_bind_ok {β : Type} {config : Config} {name : String} {kind : IdentKind}
    {f : String → Gen β} {b : β} :
    (ident crates config name kind >>= f) = .ok b ↔
      isIdent crates (identText crates config name kind) = true ∧
        f (identText crates config name kind) = .ok b := by
  rw [gen_bind_ok]
  constructor
  · intro h
    obtain ⟨t, hident, hf⟩ := h
    obtain ⟨hshape, rfl⟩ := ident_ok.mp hident
    exact ⟨hshape, hf⟩
  · intro h
    obtain ⟨hshape, hf⟩ := h
    exact ⟨_, ident_ok.mpr ⟨hshape, rfl⟩, hf⟩

end Formats

/-- `DimSuffix::expand_dim`. -/
def expandDim (name suffix : String) : String :=
  if contains name "%s" then
    replace name (if contains name "[%s]" then "[%s]" else "%s") suffix
  else name

/-- `DimSuffix::remove_dim`. -/
def removeDim (name : String) : String := expandDim name ""

/-- `util::fullname`. -/
def fullname (name : String) (group : Option String) (ignoreGroup : Bool) : String :=
  match group with
  | some group => if ignoreGroup then name else group ++ "_" ++ name
  | none => name

/-- `FullName for RegisterInfo`. -/
def RegisterInfo.fullname (info : RegisterInfo) (ignoreGroup : Bool) : String :=
  Svd2Rust.fullname info.name info.alternateGroup ignoreGroup

/-- Without a group the full name is the SVD name. -/
theorem fullname_of_ungrouped {info : RegisterInfo} {ignoreGroup : Bool}
    (h : info.alternateGroup = none ∨ ignoreGroup = true) : info.fullname ignoreGroup = info.name := by
  unfold RegisterInfo.fullname fullname
  rcases h with hgroup | hignore
  · rw [hgroup]
  · cases info.alternateGroup with
    | none => rfl
    | some group => exact if_pos hignore

/-- `util::name_of` a register. -/
def nameOf (reg : Register) (ignoreGroup : Bool) : String :=
  match reg with
  | .single info => info.fullname ignoreGroup
  | .array info _ => removeDim (info.fullname ignoreGroup)

/-- `util::respace`. -/
def respace (s : String) : String :=
  replace (joinSpaces (splitWhitespace s)) "\\n" "\n"

/-- One `fold` of `escape_brackets`: rejoin the pieces around `bracket`. -/
def escapeBracket (bracket : Char) (s : String) : String :=
  ((splitChars (· == bracket) s.toList).map String.ofList).foldl
    (fun acc piece =>
      if acc = "" then piece
      else if endsWith acc "\\" then acc ++ String.ofList [bracket] ++ piece
      else acc ++ "\\" ++ String.ofList [bracket] ++ piece) ""

/-- `util::escape_brackets`. -/
def escapeBrackets (s : String) : String :=
  escapeBracket ']' (escapeBracket '[' s)

/-- `util::escape_special_chars`. -/
def escapeSpecialChars (s : String) : String :=
  if contains s "[" then escapeBrackets s else s

/-- The register size types of `U32Ext::to_ty_width`. -/
def toTyWidth (width : Nat) : Gen Nat :=
  if width = 1 then .ok 1
  else if 2 ≤ width ∧ width ≤ 8 then .ok 8
  else if 9 ≤ width ∧ width ≤ 16 then .ok 16
  else if 17 ≤ width ∧ width ≤ 32 then .ok 32
  else if 33 ≤ width ∧ width ≤ 64 then .ok 64
  else bail s!"can't convert {width} bits into a Rust integral type width"

end Svd2Rust
