import Mathlib.Data.List.Basic

/-!
# The string operations the generator uses

Rust's `str` methods on lists of characters: every function recurses on the
characters, so that names can be computed and compared by evaluation.
-/

namespace RustStrings

/-- Apply a function to the characters of a string. -/
def mapChars (f : List Char → List Char) (s : String) : String :=
  String.ofList (f s.toList)

/-- `str::contains` for a string pattern. -/
def containsChars (pat : List Char) : List Char → Bool
  | [] => pat.isEmpty
  | c :: cs => pat.isPrefixOf (c :: cs) || containsChars pat cs

def contains (s pat : String) : Bool :=
  containsChars pat.toList s.toList

/-- `str::ends_with`. -/
def endsWith (s pat : String) : Bool :=
  pat.toList.isSuffixOf s.toList

/-- A pattern of one character ends the text if the character does. -/
theorem endsWith_of_char {s pat : String} {c : Char} (hpat : pat.toList = [c]) :
    endsWith s pat = true ↔ s.toList.getLast? = some c := by
  rw [endsWith, hpat, List.isSuffixOf_iff_suffix, List.singleton_suffix_iff_getLast?_eq_some]

/-- `str::replace` with a nonempty pattern; `skip` characters belong to the
match that was just replaced. -/
def replaceChars (pat rep : List Char) : (skip : Nat) → List Char → List Char
  | _, [] => []
  | skip + 1, _ :: cs => replaceChars pat rep skip cs
  | 0, c :: cs =>
      if pat.isPrefixOf (c :: cs) then rep ++ replaceChars pat rep (pat.length - 1) cs
      else c :: replaceChars pat rep 0 cs

def replace (s pat rep : String) : String :=
  mapChars (replaceChars pat.toList rep.toList 0) s

/-- `str::replace` of single characters by nothing. -/
def removeChars (drop : List Char) (s : String) : String :=
  mapChars (·.filter (· ∉ drop)) s

/-- `char::is_whitespace`: the characters with Unicode's `White_Space`. -/
def isWhitespace (c : Char) : Bool :=
  let n := c.toNat
  (9 ≤ n && n ≤ 13) || n == 0x20 || n == 0x85 || n == 0xA0 || n == 0x1680 ||
    (0x2000 ≤ n && n ≤ 0x200A) || n == 0x2028 || n == 0x2029 || n == 0x202F ||
    n == 0x205F || n == 0x3000

/-- The pieces between separators, empty ones included. -/
def splitChars (sep : Char → Bool) : List Char → List (List Char)
  | [] => [[]]
  | c :: cs =>
      match splitChars sep cs with
      | [] => [[c]]
      | piece :: pieces => if sep c then [] :: piece :: pieces else (c :: piece) :: pieces

section Split

variable {sep : Char → Bool} {c : Char} {cs : List Char}

theorem splitChars_ne_nil (sep : Char → Bool) (cs : List Char) : splitChars sep cs ≠ [] := by
  cases cs with
  | nil => simp [splitChars]
  | cons c cs =>
      unfold splitChars
      split
      · simp
      · split <;> simp

/-- A separator opens a new piece. -/
theorem splitChars_cons_sep (h : sep c = true) :
    splitChars sep (c :: cs) = [] :: splitChars sep cs := by
  obtain ⟨piece, pieces, hsplit⟩ := List.exists_cons_of_ne_nil (splitChars_ne_nil sep cs)
  simp [splitChars, hsplit, h]

/-- Any other character goes to the first piece. -/
theorem splitChars_cons_keep (h : sep c = false) :
    ∃ piece pieces, splitChars sep cs = piece :: pieces ∧
      splitChars sep (c :: cs) = (c :: piece) :: pieces := by
  obtain ⟨piece, pieces, hsplit⟩ := List.exists_cons_of_ne_nil (splitChars_ne_nil sep cs)
  exact ⟨piece, pieces, hsplit, by simp [splitChars, hsplit, h]⟩

/-- The pieces hold what is no separator, in order. -/
theorem flatten_splitChars (sep : Char → Bool) (cs : List Char) :
    (splitChars sep cs).flatten = cs.filter fun c => !sep c := by
  induction cs with
  | nil => simp [splitChars]
  | cons c cs ih =>
      cases h : sep c with
      | true => simp [splitChars_cons_sep h, ih, h]
      | false =>
          obtain ⟨piece, pieces, hsplit, hcons⟩ := @splitChars_cons_keep sep c cs h
          rw [hsplit] at ih
          simpa [hcons, h] using ih

/-- Joined by the separator the pieces are the string again. -/
theorem intercalate_splitChars (b : Char) (cs : List Char) :
    List.intercalate [b] (splitChars (· == b) cs) = cs := by
  induction cs with
  | nil => simp [splitChars]
  | cons c cs ih =>
      by_cases h : c = b
      · subst h
        obtain ⟨piece, pieces, hsplit⟩ :=
          List.exists_cons_of_ne_nil (splitChars_ne_nil (· == c) cs)
        rw [splitChars_cons_sep (by simp), hsplit, List.intercalate_cons_cons, ← hsplit, ih]
        rfl
      · obtain ⟨piece, pieces, hsplit, hcons⟩ :=
          @splitChars_cons_keep (· == b) c cs (by simpa using h)
        rw [hsplit] at ih
        rw [hcons]
        cases pieces with
        | nil => simpa using ih
        | cons next rest =>
            rw [List.intercalate_cons_cons] at ih ⊢
            rw [List.cons_append, List.cons_append, ih]

/-- Without separators there is one piece. -/
theorem splitChars_of_none {piece : List Char} (h : ∀ c ∈ piece, sep c = false) :
    splitChars sep piece = [piece] := by
  induction piece with
  | nil => rfl
  | cons c cs ih =>
      have hrest := ih fun d hd => h d (List.mem_cons_of_mem _ hd)
      have hkeep := h c List.mem_cons_self
      simp [splitChars, hrest, hkeep]

/-- A piece ends at the first separator. -/
theorem splitChars_append_sep {piece : List Char} (h : ∀ c ∈ piece, sep c = false) {b : Char}
    (hsep : sep b = true) (rest : List Char) :
    splitChars sep (piece ++ b :: rest) = piece :: splitChars sep rest := by
  induction piece with
  | nil => exact splitChars_cons_sep hsep
  | cons c cs ih =>
      have hrest := ih fun d hd => h d (List.mem_cons_of_mem _ hd)
      have hkeep := h c List.mem_cons_self
      rw [List.cons_append, splitChars, hrest]
      simp [hkeep]

end Split

/-- `str::split_whitespace`. -/
def splitWhitespace (s : String) : List String :=
  ((splitChars isWhitespace s.toList).filter (· ≠ [])).map String.ofList

/-- `[_]::join(" ")`. -/
def joinSpaces : List String → String
  | [] => ""
  | [s] => s
  | s :: rest => s ++ " " ++ joinSpaces rest

/-- `{:0width$x}`: hexadecimal digits padded with zeros. -/
def paddedHex (width n : Nat) : String :=
  let digits := Nat.toDigits 16 n
  String.ofList (List.replicate (width - digits.length) '0' ++ digits)

end RustStrings
