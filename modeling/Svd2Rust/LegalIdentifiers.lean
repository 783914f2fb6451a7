import Svd2Rust.PascalNames

/-!
# Identifiers from SVD names

`IdentFormat::sanitize` removes what no identifier can hold, changes the case, adds
prefix and suffix, repairs a leading digit and escapes keywords.  Each step keeps what
the ones before it have reached.  The last one is left out for the two cases that
capitalize, and its list of keywords has no `Self`.
-/

namespace Svd2Rust

open RustStrings

/-- The words Rust keeps for itself, in any edition. -/
def reservedWords : List String :=
  ["as", "break", "const", "continue", "crate", "else", "enum", "extern", "false", "fn", "for",
   "if", "impl", "in", "let", "loop", "match", "mod", "move", "mut", "pub", "ref", "return",
   "self", "Self", "static", "struct", "super", "trait", "true", "type", "unsafe", "use",
   "where", "while", "async", "await", "dyn", "abstract", "become", "box", "do", "final",
   "macro", "override", "priv", "typeof", "unsized", "virtual", "yield", "try", "gen"]

/-- Letters, digits and the underscore. -/
def isWordChar (c : Char) : Bool := c.isAlphanum || c == '_'

/-- Only such characters, and not only underscores. -/
structure IsWord (s : String) : Prop where
  chars : ∀ c ∈ s.toList, isWordChar c = true
  named : ∃ c ∈ s.toList, c.isAlphanum = true

/-- A name of the SVD file: besides the characters of a word it may hold those that
`sanitize` removes. -/
structure IsSvdName (name : String) : Prop where
  chars : ∀ c ∈ name.toList, isWordChar c = true ∨ c ∈ blacklistChars
  named : ∃ c ∈ name.toList, c.isAlphanum = true

/-- The case conversions return only letters, digits and underscores and keep at least
one letter or digit. -/
structure ConvertsWords (crates : Crates) : Prop where
  constant : ∀ s, IsWord s → IsWord (crates.toConstantCase s)
  pascal : ∀ s, IsWord s → IsWord (crates.toPascalCase s)
  snake : ∀ s, IsWord s → IsWord (crates.toSnakeCase s)

/-- Some character is no small letter. -/
def NotSmall (s : String) : Prop := ∃ c ∈ s.toList, c.isLower = false

/-- A word in constant or pascal case is not written in small letters alone. -/
structure Capitalizes (crates : Crates) : Prop where
  toConstant : ∀ s, IsWord s → NotSmall (crates.toConstantCase s)
  toPascal : ∀ s, IsWord s → NotSmall (crates.toPascalCase s)
  isConstant : ∀ s, IsWord s → crates.isConstantCase s = true → NotSmall s
  isPascal : ∀ s, IsWord s → crates.isPascalCase s = true → NotSmall s

/-- A legal identifier that is not written as a raw one, over the identifier characters
of Unicode. -/
structure LegalIdent (identChar : Char → Bool) (s : String) : Prop where
  nonempty : s ≠ ""
  chars : ∀ c ∈ s.toList, identChar c = true
  start : ∀ c ∈ s.toList.head?, c.isDigit = false
  named : s ≠ "_"
  notReserved : s ∉ reservedWords

/-- The reserved words a format passes on as they are. -/
def unescapedWords : Option Case → List String
  | some .snake | none => ["Self"]
  | some .constant | some .pascal => reservedWords

/-! ## Words -/

theorem isAlphanum_not_blacklisted {c : Char} (h : c.isAlphanum = true) :
    c ∉ blacklistChars := by
  intro hmem
  have hnone : blacklistChars.all (!·.isAlphanum) = true := by decide
  simpa [h] using List.all_eq_true.mp hnone c hmem

/-- What `sanitize` makes of a name is a word. -/
theorem sanitize_isWord {name : String} (h : IsSvdName name) : IsWord (sanitize name).text := by
  obtain ⟨d, hd, halnum⟩ := h.named
  unfold sanitize
  split
  · refine ⟨fun c hc => ?_, d, ?_, halnum⟩
    · simp only [Cow.text, removeChars, mapChars, String.toList_ofList, List.mem_filter,
        decide_eq_true_eq] at hc
      exact (h.chars c hc.1).resolve_right hc.2
    · simp only [Cow.text, removeChars, mapChars, String.toList_ofList, List.mem_filter,
        decide_eq_true_eq]
      exact ⟨hd, isAlphanum_not_blacklisted halnum⟩
  · rename_i hclean
    refine ⟨fun c hc => (h.chars c hc).resolve_right fun hblack => hclean ?_, d, hd, halnum⟩
    exact List.any_eq_true.mpr ⟨c, hc, decide_eq_true hblack⟩

section Pascal

variable {crates : Crates}

/-- What the loop of `to_pascal_case` writes comes from a part or is an underscore. -/
theorem of_mem_pascalParts {parts : List (List Char)} {c : Char}
    (h : c ∈ (pascalParts crates parts).toList) :
    c = '_' ∨ ∃ part ∈ parts, part ≠ [] ∧
      c ∈ (crates.toPascalCase (String.ofList part)).toList := by
  induction parts with
  | nil => simp [pascalParts] at h
  | cons part rest ih =>
      have hlater : c ∈ (pascalParts crates rest).toList →
          c = '_' ∨ ∃ p ∈ part :: rest, p ≠ [] ∧
            c ∈ (crates.toPascalCase (String.ofList p)).toList := by
        intro hc
        rcases ih hc with hc | ⟨p, hp, hne, hc⟩
        · exact .inl hc
        · exact .inr ⟨p, List.mem_cons_of_mem _ hp, hne, hc⟩
      by_cases hempty : part = []
      · subst hempty
        exact hlater h
      · obtain ⟨tail, hround, htail⟩ := @pascalParts_cons crates part hempty rest
        rw [hround, List.mem_append, List.mem_append] at h
        rcases h with (hc | hc) | hc
        · exact .inr ⟨part, List.mem_cons_self, hempty, hc⟩
        · rcases htail with ⟨rfl, -⟩ | ⟨rfl, -⟩
          · exact .inl (List.mem_singleton.mp hc)
          · simp at hc
        · exact hlater hc

/-- It writes every part that is not empty. -/
theorem mem_pascalParts {parts : List (List Char)} {part : List Char} (hpart : part ∈ parts)
    (hne : part ≠ []) {c : Char} (hc : c ∈ (crates.toPascalCase (String.ofList part)).toList) :
    c ∈ (pascalParts crates parts).toList := by
  induction parts with
  | nil => simp at hpart
  | cons first rest ih =>
      by_cases hempty : first = []
      · subst hempty
        rcases List.mem_cons.mp hpart with rfl | hpart
        · exact absurd rfl hne
        · exact ih hpart
      · obtain ⟨tail, hround, -⟩ := @pascalParts_cons crates first hempty rest
        rw [hround, List.mem_append, List.mem_append]
        rcases List.mem_cons.mp hpart with rfl | hpart
        · exact .inl (.inl hc)
        · exact .inr (ih hpart)

/-- A part between underscores that is not empty is a word. -/
theorem isWord_part {s : String} (h : IsWord s) {part : List Char}
    (hpart : part ∈ splitChars (· == '_') s.toList) (hne : part ≠ []) :
    IsWord (String.ofList part) := by
  have halnum : ∀ c ∈ part, c.isAlphanum = true := by
    intro c hc
    have hmem := List.mem_flatten.mpr ⟨part, hpart, hc⟩
    rw [flatten_splitChars, List.mem_filter] at hmem
    exact (Bool.or_eq_true_iff.mp (h.chars c hmem.1)).resolve_right (by simpa using hmem.2)
  obtain ⟨c, cs, rfl⟩ := List.exists_cons_of_ne_nil hne
  refine ⟨fun d hd => ?_, c, by simp, halnum c List.mem_cons_self⟩
  rw [String.toList_ofList] at hd
  exact Bool.or_eq_true_iff.mpr (.inl (halnum d hd))

/-- A word has such a part. -/
theorem exists_part {s : String} (h : IsWord s) :
    ∃ part ∈ splitChars (· == '_') s.toList, part ≠ [] := by
  obtain ⟨c, hc, halnum⟩ := h.named
  have hne := ne_underscore_of_isAlphanum halnum
  have hmem : c ∈ (splitChars (· == '_') s.toList).flatten := by
    rw [flatten_splitChars, List.mem_filter]
    exact ⟨hc, by simpa using hne⟩
  obtain ⟨part, hpart, hcpart⟩ := List.mem_flatten.mp hmem
  exact ⟨part, hpart, List.ne_nil_of_mem hcpart⟩

/-- A character the conversion of every part has is in the converted name. -/
theorem exists_mem_toPascalCase {s : String} (h : IsWord s) {p : Char → Prop}
    (hconv : ∀ word, IsWord word → ∃ c ∈ (crates.toPascalCase word).toList, p c) :
    ∃ c ∈ (toPascalCase crates s).toList, p c := by
  unfold toPascalCase
  split
  · obtain ⟨part, hpart, hne⟩ := exists_part h
    obtain ⟨c, hc, hp⟩ := hconv _ (isWord_part h hpart hne)
    refine ⟨c, ?_, hp⟩
    rw [String.toList_append]
    exact List.mem_append_right _ (mem_pascalParts hpart hne hc)
  · exact hconv s h

theorem toPascalCase_isWord (hconv : ConvertsWords crates) {s : String} (h : IsWord s) :
    IsWord (toPascalCase crates s) := by
  refine ⟨?_, exists_mem_toPascalCase h fun word hword => (hconv.pascal word hword).named⟩
  intro c hc
  unfold toPascalCase at hc
  split at hc
  · rw [String.toList_append, List.mem_append] at hc
    rcases hc with hc | hc
    · split at hc
      · obtain rfl : c = '_' := by simpa using hc
        decide
      · simp at hc
    · rcases of_mem_pascalParts hc with rfl | ⟨part, hpart, hne, hc⟩
      · decide
      · exact (hconv.pascal _ (isWord_part h hpart hne)).chars c hc
  · exact (hconv.pascal s h).chars c hc

/-- A case conversion of a sanitized name. -/
theorem cowToCase_isWord (hconv : ConvertsWords crates) (case : Case) {cow : Cow}
    (h : IsWord cow.text) : IsWord (case.cowToCase crates cow) := by
  have hconverts : ∀ s, IsWord s → IsWord (case.cowToCase crates (.owned s)) := by
    intro s hs
    cases case with
    | constant => exact hconv.constant s hs
    | pascal => exact toPascalCase_isWord hconv hs
    | snake => exact hconv.snake s hs
  cases cow with
  | owned s => exact hconverts s h
  | borrowed s =>
      have hcow : case.cowToCase crates (.borrowed s) = s ∨
          case.cowToCase crates (.borrowed s) = case.cowToCase crates (.owned s) :=
        ite_eq_or_eq _ _ _
      rcases hcow with hcow | hcow
      · rw [hcow]
        exact h
      · rw [hcow]
        exact hconverts s h

end Pascal

/-! ## Formatted names -/

section Formats

variable {crates : Crates} {identChar : Char → Bool} {format : IdentFormat} {name : String}

/-- The name between prefix and suffix. -/
theorem apply_eq (crates : Crates) (format : IdentFormat) (name : String) :
    format.apply crates name =
      format.prefixText ++ (match format.case with
        | some case => case.cowToCase crates (Svd2Rust.sanitize name)
        | none => (Svd2Rust.sanitize name).text) ++ format.suffixText := rfl

/-- A formatted name has only identifier characters, and a letter or digit. -/
theorem apply_chars (hconv : ConvertsWords crates)
    (hident : ∀ c, isWordChar c = true → identChar c = true)
    (hbefore : ∀ c ∈ format.prefixText.toList, identChar c = true)
    (hafter : ∀ c ∈ format.suffixText.toList, identChar c = true) (hname : IsSvdName name) :
    (∀ c ∈ (format.apply crates name).toList, identChar c = true) ∧
      ∃ c ∈ (format.apply crates name).toList, c.isAlphanum = true := by
  have hword : IsWord (match format.case with
      | some case => case.cowToCase crates (Svd2Rust.sanitize name)
      | none => (Svd2Rust.sanitize name).text) := by
    cases format.case with
    | none => exact sanitize_isWord hname
    | some case => exact cowToCase_isWord hconv case (sanitize_isWord hname)
  rw [apply_eq]
  constructor
  · intro c hc
    simp only [String.toList_append, List.mem_append] at hc
    rcases hc with (hc | hc) | hc
    · exact hbefore c hc
    · exact hident c (hword.chars c hc)
    · exact hafter c hc
  · obtain ⟨c, hc, halnum⟩ := hword.named
    refine ⟨c, ?_, halnum⟩
    simp only [String.toList_append, List.mem_append]
    exact .inl (.inr hc)

/-- What every step up to the keywords has reached. -/
structure IdentShape (identChar : Char → Bool) (s : String) : Prop where
  chars : ∀ c ∈ s.toList, identChar c = true
  start : ∀ c ∈ s.toList.head?, c.isDigit = false
  named : ∃ c ∈ s.toList, c.isAlphanum = true

theorem IdentShape.legal_iff {s : String} (h : IdentShape identChar s) :
    LegalIdent identChar s ↔ s ∉ reservedWords := by
  constructor
  · intro hlegal
    exact hlegal.notReserved
  · intro hreserved
    obtain ⟨c, hc, halnum⟩ := h.named
    refine ⟨?_, h.chars, h.start, ?_, hreserved⟩
    · intro heq
      obtain rfl := heq
      simp at hc
    · intro heq
      obtain rfl := heq
      obtain rfl : c = '_' := by simpa using hc
      exact absurd halnum (by decide)

/-- The repair of a leading digit. -/
theorem IdentShape.of_repair {s : String} (hunderscore : identChar '_' = true)
    (hchars : ∀ c ∈ s.toList, identChar c = true) (hnamed : ∃ c ∈ s.toList, c.isAlphanum = true) :
    IdentShape identChar (if s.toList.head?.any Char.isDigit then "_" ++ s else s) := by
  split
  · have hlist : ("_" ++ s).toList = '_' :: s.toList := by simp
    obtain ⟨c, hc, halnum⟩ := hnamed
    refine ⟨?_, ?_, c, ?_, halnum⟩
    · intro d hd
      rw [hlist] at hd
      rcases List.mem_cons.mp hd with rfl | hd
      · exact hunderscore
      · exact hchars d hd
    · rw [hlist]
      simp
    · rw [hlist]
      exact List.mem_cons_of_mem _ hc
  · rename_i hdigit
    refine ⟨hchars, fun c hc => ?_, hnamed⟩
    rw [Option.mem_def.mp hc] at hdigit
    simpa using hdigit

/-- The underscore that escapes a keyword. -/
theorem IdentShape.append_underscore {s : String} (hunderscore : identChar '_' = true)
    (h : IdentShape identChar s) : IdentShape identChar (s ++ "_") := by
  have hlist : (s ++ "_").toList = s.toList ++ ['_'] := by simp
  obtain ⟨c, hc, halnum⟩ := h.named
  refine ⟨?_, ?_, c, ?_, halnum⟩
  · intro d hd
    rw [hlist, List.mem_append, List.mem_singleton] at hd
    rcases hd with hd | rfl
    · exact h.chars d hd
    · exact hunderscore
  · rw [hlist, List.head?_append_of_ne_nil _ (List.ne_nil_of_mem hc)]
    exact h.start
  · rw [hlist]
    exact List.mem_append_left _ hc

end Formats

/-! ## Keywords -/

/-- No reserved word and no keyword starts with a digit or an underscore. -/
theorem reserved_start : ∀ w ∈ reservedWords ++ keywords,
    w.toList.head?.any (fun c => c.isDigit || c == '_') = false := by
  decide

/-- Escaped, a keyword is no reserved word. -/
theorem escaped_not_reserved : ∀ w ∈ keywords, w ++ "_" ∉ reservedWords := by
  decide

/-- The one reserved word that is no keyword. -/
theorem reserved_iff : ∀ w ∈ reservedWords, w ∈ keywords ∨ w = "Self" := by
  decide

/-- All others are written in small letters. -/
theorem reserved_small : ∀ w ∈ reservedWords, w = "Self" ∨ w.toList.all Char.isLower = true := by
  decide

theorem mem_reserved_of_unescaped {case : Option Case} {w : String}
    (h : w ∈ unescapedWords case) : w ∈ reservedWords := by
  rcases case with _ | case
  · rw [List.mem_singleton.mp h]
    decide
  cases case with
  | constant => exact h
  | pascal => exact h
  | snake =>
      rw [List.mem_singleton.mp h]
      decide

/-- Where keywords are escaped only `Self` is left. -/
theorem sanitizeKeyword_reserved_iff (s : String) :
    sanitizeKeyword s ∉ reservedWords ↔ s ≠ "Self" := by
  unfold sanitizeKeyword
  split
  · rename_i hkeyword
    refine iff_of_true (escaped_not_reserved s hkeyword) ?_
    intro heq
    obtain rfl := heq
    exact absurd hkeyword (by decide)
  · rename_i hkeyword
    constructor
    · intro h heq
      obtain rfl := heq
      exact h (by decide)
    · intro hself hreserved
      exact (reserved_iff s hreserved).elim hkeyword hself

section Legal

variable {crates : Crates} {identChar : Char → Bool} {format : IdentFormat} {name : String}

/-- The repaired name, once keywords are escaped where they are. -/
theorem escape_legal_iff (hunderscore : identChar '_' = true) (case : Option Case) {s : String}
    (h : IdentShape identChar s) :
    LegalIdent identChar (match case with
      | some .snake | none => sanitizeKeyword s
      | _ => s) ↔ s ∉ unescapedWords case := by
  have hescape : IdentShape identChar (sanitizeKeyword s) := by
    unfold sanitizeKeyword
    split
    · exact h.append_underscore hunderscore
    · exact h
  have hself : s ∉ ["Self"] ↔ s ≠ "Self" := List.mem_singleton.not
  rcases case with _ | case
  · exact hescape.legal_iff.trans ((sanitizeKeyword_reserved_iff s).trans hself.symm)
  cases case with
  | constant => exact h.legal_iff
  | pascal => exact h.legal_iff
  | snake => exact hescape.legal_iff.trans ((sanitizeKeyword_reserved_iff s).trans hself.symm)

/-- A name that starts with a digit is no reserved word, before and after its repair. -/
theorem repair_unescaped_iff (case : Option Case) (s : String) :
    (if s.toList.head?.any Char.isDigit then "_" ++ s else s) ∉ unescapedWords case ↔
      s ∉ unescapedWords case := by
  split
  · rename_i hdigit
    refine iff_of_true (fun h => ?_) (fun h => ?_)
    · have hstart := reserved_start _ (List.mem_append_left _ (mem_reserved_of_unescaped h))
      simp at hstart
    · have hstart := reserved_start _ (List.mem_append_left _ (mem_reserved_of_unescaped h))
      obtain ⟨c, hc, hcdigit⟩ := (Option.any_eq_true _ _).mp hdigit
      simp [hc, hcdigit] at hstart
  · exact Iff.rfl

/-- The conversions to constant and pascal case leave a character that is no small
letter. -/
theorem apply_notSmall (hcap : Capitalizes crates) (hname : IsSvdName name)
    (hcase : format.case = some .constant ∨ format.case = some .pascal) :
    NotSmall (format.apply crates name) := by
  have hword := sanitize_isWord hname
  have hconverted : ∀ case, case = Case.constant ∨ case = Case.pascal →
      NotSmall (case.cowToCase crates (Svd2Rust.sanitize name)) := by
    intro case hcase
    generalize Svd2Rust.sanitize name = cow at hword
    have htoPascal : ∀ s, IsWord s → NotSmall (toPascalCase crates s) := fun s hs =>
      exists_mem_toPascalCase hs hcap.toPascal
    rcases hcase with rfl | rfl
    · cases cow with
      | owned s => exact hcap.toConstant s hword
      | borrowed s =>
          unfold Case.cowToCase
          dsimp only
          split
          · exact hcap.isConstant s hword ‹_›
          · exact hcap.toConstant s hword
    · cases cow with
      | owned s => exact htoPascal s hword
      | borrowed s =>
          unfold Case.cowToCase
          dsimp only
          split
          · exact hcap.isPascal s hword ‹_›
          · exact htoPascal s hword
  have hmiddle : ∃ middle, NotSmall middle ∧
      format.apply crates name = format.prefixText ++ middle ++ format.suffixText := by
    rcases hcase with hcase | hcase
    · exact ⟨_, hconverted .constant (.inl rfl), by rw [apply_eq, hcase]⟩
    · exact ⟨_, hconverted .pascal (.inr rfl), by rw [apply_eq, hcase]⟩
  obtain ⟨middle, ⟨c, hc, hlower⟩, happly⟩ := hmiddle
  refine ⟨c, ?_, hlower⟩
  simp only [happly, String.toList_append, List.mem_append]
  exact .inl (.inr hc)

/-- Given what the two cases mean, `Self` is all that is left to them as well. -/
theorem unescaped_iff_self (hcap : Capitalizes crates) (hname : IsSvdName name) :
    format.apply crates name ∉ unescapedWords format.case ↔
      format.apply crates name ≠ "Self" := by
  have hcapital : format.case = some .constant ∨ format.case = some .pascal →
      (format.apply crates name ∉ reservedWords ↔ format.apply crates name ≠ "Self") := by
    intro hcase
    constructor
    · intro h hself
      rw [hself] at h
      exact h (by decide)
    · intro hself hreserved
      obtain ⟨c, hc, hlower⟩ := apply_notSmall hcap hname hcase
      have hall := (reserved_small _ hreserved).resolve_left hself
      rw [List.all_eq_true.mp hall c hc] at hlower
      cases hlower
  rcases hcase : format.case with _ | case
  · exact List.mem_singleton.not
  cases case with
  | constant => exact hcapital (.inl hcase)
  | pascal => exact hcapital (.inr hcase)
  | snake => exact List.mem_singleton.not

/-- **Legal identifiers.**  A sanitized name is legal exactly if the formatted name is no
reserved word that the format passes on.  Under a capitalizing conversion that is `Self` for
every format.  Formatting keeps to the characters of an identifier and a digit in front gets
an underscore, so that only a reserved word is left; the keyword list is applied to some of
the cases only. -/
theorem sanitize_legal_iff (hconv : ConvertsWords crates)
    (hident : ∀ c, isWordChar c = true → identChar c = true)
    (hbefore : ∀ c ∈ format.prefixText.toList, identChar c = true)
    (hafter : ∀ c ∈ format.suffixText.toList, identChar c = true) (hname : IsSvdName name) :
    (LegalIdent identChar (format.sanitize crates name) ↔
        format.apply crates name ∉ unescapedWords format.case) ∧
      (Capitalizes crates → (LegalIdent identChar (format.sanitize crates name) ↔
        format.apply crates name ≠ "Self")) := by
  have hlegal : LegalIdent identChar (format.sanitize crates name) ↔
      format.apply crates name ∉ unescapedWords format.case := by
    have hunderscore := hident '_' rfl
    obtain ⟨hchars, hnamed⟩ := apply_chars hconv hident hbefore hafter hname
    have hshape := IdentShape.of_repair hunderscore hchars hnamed
    have hescape := escape_legal_iff hunderscore format.case hshape
    exact hescape.trans (repair_unescaped_iff format.case _)
  refine ⟨hlegal, fun hcap => ?_⟩
  exact hlegal.trans (unescaped_iff_self hcap hname)

end Legal

/-! ## Conversions on ASCII names -/

namespace AsciiCrates

/-- The words of a name have only letters and digits. -/
theorem of_mem_words {s : String} (hs : IsWord s) {word : List Char}
    (h : word ∈ AsciiCrates.words s) : ∀ c ∈ word, c.isAlphanum = true := by
  intro c hc
  have hflat := List.mem_flatten.mpr ⟨word, h, hc⟩
  rw [AsciiCrates.words, flatten_wordChars] at hflat
  obtain ⟨hmem, hsep⟩ := List.mem_filter.mp hflat
  refine (Bool.or_eq_true_iff.mp (hs.chars c hmem)).resolve_right fun hunder => ?_
  simp [AsciiCrates.isSeparator, hunder] at hsep

/-- One of them is not empty. -/
theorem exists_word {s : String} (h : IsWord s) : ∃ c cs, c :: cs ∈ AsciiCrates.words s := by
  obtain ⟨c, hc, halnum⟩ := h.named
  have hflat : c ∈ (AsciiCrates.words s).flatten := by
    rw [AsciiCrates.words, flatten_wordChars]
    exact List.mem_filter.mpr ⟨hc, by simp [isSeparator_of_isAlphanum halnum]⟩
  obtain ⟨word, hword, hc⟩ := List.mem_flatten.mp hflat
  obtain ⟨d, cs, rfl⟩ := List.exists_cons_of_ne_nil (List.ne_nil_of_mem hc)
  exact ⟨d, cs, hword⟩

theorem mem_joined_iff {words : List (List Char)} {c : Char} (hc : c ≠ '_') :
    c ∈ List.intercalate ['_'] words ↔ ∃ word ∈ words, c ∈ word := by
  induction words with
  | nil => simp
  | cons word rest ih =>
      cases rest with
      | nil => simp
      | cons next more =>
          rw [List.intercalate_cons_cons, List.mem_append, List.mem_append, ih]
          simp [hc]

theorem isAlphanum_toUpper {c : Char} (h : c.isAlphanum = true) : c.toUpper.isAlphanum = true := by
  rcases Bool.or_eq_true_iff.mp h with halpha | hdigit
  · simp [Char.isAlphanum, halpha]
  · have hlower : ¬ c.isLower = true := by
      have halpha := isAlpha_of_isDigit hdigit
      simp only [Char.isAlpha, Bool.or_eq_false_iff] at halpha
      simp [halpha.2]
    rw [Char.toUpper_eq_of_not_isLower hlower]
    exact h

theorem isAlphanum_toLower {c : Char} (h : c.isAlphanum = true) : c.toLower.isAlphanum = true := by
  rcases Bool.or_eq_true_iff.mp h with halpha | hdigit
  · simp [Char.isAlphanum, halpha]
  · have hupper : ¬ c.isUpper = true := by
      have halpha := isAlpha_of_isDigit hdigit
      simp only [Char.isAlpha, Bool.or_eq_false_iff] at halpha
      simp [halpha.1]
    rw [Char.toLower_eq_of_not_isUpper hupper]
    exact h

/-- Words joined by underscores, their characters converted. -/
theorem isWord_joined {f : Char → Char} (hf : ∀ c, c.isAlphanum = true → (f c).isAlphanum = true)
    {s : String} (h : IsWord s) :
    IsWord (String.ofList (List.intercalate ['_'] ((AsciiCrates.words s).map (·.map f)))) := by
  constructor
  · intro c hc
    rw [String.toList_ofList] at hc
    by_cases hunder : c = '_'
    · subst hunder
      decide
    · obtain ⟨converted, hconverted, hc⟩ := (mem_joined_iff hunder).mp hc
      obtain ⟨word, hword, rfl⟩ := List.mem_map.mp hconverted
      obtain ⟨d, hd, rfl⟩ := List.mem_map.mp hc
      exact Bool.or_eq_true_iff.mpr (.inl (hf d (of_mem_words h hword d hd)))
  · obtain ⟨d, cs, hword⟩ := exists_word h
    have hfd := hf d (of_mem_words h hword d List.mem_cons_self)
    refine ⟨f d, ?_, hfd⟩
    rw [String.toList_ofList]
    apply (mem_joined_iff (ne_underscore_of_isAlphanum hfd)).mpr
    exact ⟨(d :: cs).map f, List.mem_map_of_mem hword, List.mem_cons_self⟩

/-- A character of the pascal case of a name is one of a word in upper or lower case. -/
theorem of_mem_toPascalCase {s : String} (hs : IsWord s) {c : Char}
    (h : c ∈ (AsciiCrates.toPascalCase s).toList) : c.isAlphanum = true := by
  rw [AsciiCrates.toPascalCase, String.toList_ofList, List.mem_flatMap] at h
  obtain ⟨word, hword, hc⟩ := h
  have halnum := of_mem_words hs hword
  cases word with
  | nil => cases hc
  | cons d cs =>
      rcases List.mem_cons.mp hc with rfl | hc
      · exact isAlphanum_toUpper (halnum d List.mem_cons_self)
      · obtain ⟨e, he, rfl⟩ := List.mem_map.mp hc
        exact isAlphanum_toLower (halnum e (List.mem_cons_of_mem _ he))

/-- Its first character is no small letter. -/
theorem exists_capital {s : String} (h : IsWord s) :
    ∃ c ∈ (AsciiCrates.toPascalCase s).toList, c.isAlphanum = true ∧ c.isLower = false := by
  obtain ⟨d, cs, hword⟩ := exists_word h
  have halnum := of_mem_words h hword d List.mem_cons_self
  refine ⟨d.toUpper, ?_, isAlphanum_toUpper halnum, by simp⟩
  rw [AsciiCrates.toPascalCase, String.toList_ofList, List.mem_flatMap]
  exact ⟨_, hword, List.mem_cons_self⟩

end AsciiCrates

theorem convertsWords_asciiCrates : ConvertsWords asciiCrates where
  constant _ h := AsciiCrates.isWord_joined (fun _ hc => AsciiCrates.isAlphanum_toUpper hc) h
  snake _ h := AsciiCrates.isWord_joined (fun _ hc => AsciiCrates.isAlphanum_toLower hc) h
  pascal s h := by
    refine ⟨fun c hc => ?_, ?_⟩
    · exact Bool.or_eq_true_iff.mpr (.inl (AsciiCrates.of_mem_toPascalCase h hc))
    · obtain ⟨c, hc, halnum, -⟩ := AsciiCrates.exists_capital h
      exact ⟨c, hc, halnum⟩

theorem capitalizes_asciiCrates : Capitalizes asciiCrates := by
  have hconstant : ∀ s, IsWord s → NotSmall (asciiCrates.toConstantCase s) := by
    intro s h
    obtain ⟨d, cs, hword⟩ := AsciiCrates.exists_word h
    have hupper := AsciiCrates.isAlphanum_toUpper
      (AsciiCrates.of_mem_words h hword d List.mem_cons_self)
    refine ⟨d.toUpper, ?_, by simp⟩
    have hlist : (asciiCrates.toConstantCase s).toList =
        List.intercalate ['_'] ((AsciiCrates.words s).map (·.map Char.toUpper)) :=
      String.toList_ofList
    rw [hlist, AsciiCrates.mem_joined_iff (ne_underscore_of_isAlphanum hupper)]
    exact ⟨(d :: cs).map Char.toUpper, List.mem_map_of_mem hword, List.mem_cons_self⟩
  have hpascal : ∀ s, IsWord s → NotSmall (asciiCrates.toPascalCase s) := by
    intro s h
    obtain ⟨c, hc, -, hlower⟩ := AsciiCrates.exists_capital h
    exact ⟨c, hc, hlower⟩
  refine ⟨hconstant, hpascal, fun s h hs => ?_, fun s h hs => ?_⟩
  · rw [eq_of_beq hs]
    exact hconstant s h
  · rw [eq_of_beq hs]
    exact hpascal s h

/-- A register name with a bit range in it. -/
theorem legalIdent_adcData :
    LegalIdent isWordChar ((defaultConfig.identFormats .register).sanitize asciiCrates
      "adc_data[31]") := by
  have hchars : "adc_data[31]".toList.all
      (fun c => isWordChar c || decide (c ∈ blacklistChars)) = true := by decide
  have hname : IsSvdName "adc_data[31]" :=
    ⟨fun c hc => by simpa using List.all_eq_true.mp hchars c hc, 'a', by decide, by decide⟩
  have hlegal := @sanitize_legal_iff asciiCrates isWordChar (defaultConfig.identFormats .register)
    "adc_data[31]" convertsWords_asciiCrates (fun _ hc => hc) (by simp [defaultConfig, defaultTheme])
    (by simp [defaultConfig, defaultTheme]) hname
  exact (hlegal.2 capitalizes_asciiCrates).mpr (by decide)

/-- An enumerated value `SELF` becomes the variant `Self`. -/
theorem not_legalIdent_self :
    (defaultConfig.identFormats .enumValue).sanitize asciiCrates "SELF" = "Self" ∧
      ¬ LegalIdent isWordChar
        ((defaultConfig.identFormats .enumValue).sanitize asciiCrates "SELF") := by
  refine ⟨by decide, fun h => ?_⟩
  exact h.notReserved (by decide)

end Svd2Rust
