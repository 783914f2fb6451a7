import Mathlib
import Svd2Rust.AsciiCrates

/-!
# Pascal case and the numbers in a name

`to_pascal_case` drops the underscores between the parts of a name, except before an
empty part and between two digits.  So the letters and digits of the name are kept in
their order, a leading or trailing underscore stays one, and digits that are neighbours
afterwards were neighbours before.
-/

namespace Svd2Rust

open RustStrings

/-- What the other crates do on a part of a name: `inflections` changes only the case of
letters, and `char::is_numeric` holds of the digits. -/
structure ChangesCaseOnly (crates : Crates) : Prop where
  pascal : ∀ s : String, (∀ c ∈ s.toList, c.isAlphanum = true) →
    (crates.toPascalCase s).toList.map Char.toLower = s.toList.map Char.toLower
  numeric : ∀ c : Char, c.isDigit = true → crates.isNumeric c = true

/-- The output is the input up to underscores and letter case, has an underscore at an
end where the input has one, and two digits next to each other in the output are next to
each other in the input, at the same place among its letters and digits. -/
structure KeepsBoundaries (input output : List Char) : Prop where
  letters : (output.filter (· ≠ '_')).map Char.toLower = (input.filter (· ≠ '_')).map Char.toLower
  starts : output.head? = some '_' ↔ input.head? = some '_'
  ends : output.getLast? = some '_' ↔ input.getLast? = some '_'
  digits : ∀ before d e after, output = before ++ d :: e :: after →
    d.isDigit = true → e.isDigit = true →
      ∃ before' after', input = before' ++ d :: e :: after' ∧
        (before'.filter (· ≠ '_')).length = (before.filter (· ≠ '_')).length

/-- Underscores and digits are no case of anything else. -/
theorem eq_of_toLower_eq {c d : Char} (hd : d.isAlpha = false) (h : c.toLower = d.toLower) :
    c = d := by
  have hc : c.isAlpha = false := by
    rw [← Char.isAlpha_toLower_eq_isAlpha, h, Char.isAlpha_toLower_eq_isAlpha, hd]
  simp only [Char.isAlpha, Bool.or_eq_false_iff] at hc hd
  rw [Char.toLower_eq_of_not_isUpper (by simp [hc.1]),
    Char.toLower_eq_of_not_isUpper (by simp [hd.1])] at h
  exact h

theorem isAlpha_of_isDigit {c : Char} (h : c.isDigit = true) : c.isAlpha = false := by
  simp only [Char.isDigit, Bool.and_eq_true, decide_eq_true_eq, UInt32.le_iff_toNat_le] at h
  simp only [Char.isAlpha, Char.isUpper, Char.isLower, Bool.or_eq_false_iff,
    Bool.and_eq_false_iff, decide_eq_false_iff_not, UInt32.le_iff_toNat_le]
  have hupper : '9'.val.toNat < 'A'.val.toNat := by decide
  have hlower : '9'.val.toNat < 'a'.val.toNat := by decide
  omega

theorem ne_underscore_of_isAlphanum {c : Char} (h : c.isAlphanum = true) : c ≠ '_' := by
  intro heq
  obtain rfl := heq
  revert h
  decide

theorem ne_underscore_of_isDigit {c : Char} (h : c.isDigit = true) : c ≠ '_' := by
  intro heq
  obtain rfl := heq
  revert h
  decide

theorem filter_of_isAlphanum {part : List Char} (h : ∀ c ∈ part, c.isAlphanum = true) :
    part.filter (· ≠ '_') = part := by
  apply List.filter_eq_self.mpr
  intro c hc
  simpa using ne_underscore_of_isAlphanum (h c hc)

/-! ## One part -/

section Part

variable {crates : Crates} (hcase : ChangesCaseOnly crates) {part : List Char}
  (hpart : ∀ c ∈ part, c.isAlphanum = true)

include hcase hpart

theorem toLower_pascal : (crates.toPascalCase (String.ofList part)).toList.map Char.toLower =
    part.map Char.toLower := by
  have h := hcase.pascal (String.ofList part) (by simpa using hpart)
  simpa using h

theorem length_pascal :
    (crates.toPascalCase (String.ofList part)).toList.length = part.length := by
  have h := congrArg List.length (toLower_pascal hcase hpart)
  simpa using h

theorem underscore_not_mem_pascal :
    '_' ∉ (crates.toPascalCase (String.ofList part)).toList := by
  intro hmem
  have hlower := List.mem_map_of_mem (f := Char.toLower) hmem
  rw [toLower_pascal hcase hpart] at hlower
  obtain ⟨c, hc, heq⟩ := List.mem_map.mp hlower
  exact ne_underscore_of_isAlphanum (hpart c hc) (eq_of_toLower_eq (by decide) heq)

theorem filter_pascal : (crates.toPascalCase (String.ofList part)).toList.filter (· ≠ '_') =
    (crates.toPascalCase (String.ofList part)).toList := by
  apply List.filter_eq_self.mpr
  intro c hc
  have hne : c ≠ '_' := by
    intro heq
    obtain rfl := heq
    exact underscore_not_mem_pascal hcase hpart hc
  simpa using hne

/-- Two neighbouring digits of the converted part are neighbours in the part. -/
theorem digits_pascal {before after : List Char} {d e : Char}
    (h : (crates.toPascalCase (String.ofList part)).toList = before ++ d :: e :: after)
    (hd : d.isDigit = true) (he : e.isDigit = true) :
    ∃ before' after', part = before' ++ d :: e :: after' ∧ before'.length = before.length := by
  have hlower := toLower_pascal hcase hpart
  rw [h, List.map_append] at hlower
  obtain ⟨before', rest, rfl, hbefore, hrest⟩ := List.map_eq_append_iff.mp hlower.symm
  rw [List.map_cons, List.map_cons] at hrest
  obtain ⟨d', rest, rfl, hd', hrest⟩ := List.map_eq_cons_iff.mp hrest
  obtain ⟨e', after', rfl, he', -⟩ := List.map_eq_cons_iff.mp hrest
  obtain rfl := eq_of_toLower_eq (isAlpha_of_isDigit hd) hd'
  obtain rfl := eq_of_toLower_eq (isAlpha_of_isDigit he) he'
  exact ⟨before', after', rfl, by simpa using congrArg List.length hbefore⟩

theorem head?_pascal_of_digit {e : Char} (he : e.isDigit = true)
    (h : (crates.toPascalCase (String.ofList part)).toList.head? = some e) :
    part.head? = some e := by
  have hlower := congrArg List.head? (toLower_pascal hcase hpart)
  rw [List.head?_map, List.head?_map, h] at hlower
  obtain ⟨c, hc, heq⟩ := Option.map_eq_some_iff.mp hlower.symm
  rw [hc, eq_of_toLower_eq (isAlpha_of_isDigit he) heq]

theorem getLast?_pascal_of_digit {d : Char} (hd : d.isDigit = true)
    (h : (crates.toPascalCase (String.ofList part)).toList.getLast? = some d) :
    part.getLast? = some d := by
  have hlower := congrArg List.getLast? (toLower_pascal hcase hpart)
  rw [List.getLast?_map, List.getLast?_map, h] at hlower
  obtain ⟨c, hc, heq⟩ := Option.map_eq_some_iff.mp hlower.symm
  rw [hc, eq_of_toLower_eq (isAlpha_of_isDigit hd) heq]

end Part

/-! ## All parts -/

/-- The loop leaves an underscore between this part and the next: both would put a digit
there, or the next one is empty. -/
def Breaks (crates : Crates) (part : List Char) : List (List Char) → Prop
  | [] => False
  | next :: _ =>
      (part.getLast?.any crates.isNumeric = true ∧ next.head?.any crates.isNumeric = true) ∨
        next = []

/-- In the joined parts `d` and `e` are neighbours behind as many letters and digits as
`before` has. -/
def NeighboursAt (parts : List (List Char)) (before : List Char) (d e : Char) : Prop :=
  ∃ before' after', List.intercalate ['_'] parts = before' ++ d :: e :: after' ∧
    (before'.filter (· ≠ '_')).length = (before.filter (· ≠ '_')).length

section Parts

variable {crates : Crates}

@[simp] theorem pascalParts_nil_cons (rest : List (List Char)) :
    pascalParts crates ([] :: rest) = pascalParts crates rest := rfl

/-- One round of the loop. -/
theorem pascalParts_cons {part : List Char} (hpart : part ≠ []) (rest : List (List Char)) :
    ∃ tail, (pascalParts crates (part :: rest)).toList =
        (crates.toPascalCase (String.ofList part)).toList ++ tail ++
          (pascalParts crates rest).toList ∧
      (tail = ['_'] ∧ Breaks crates part rest ∨ tail = [] ∧ ¬ Breaks crates part rest) := by
  cases rest with
  | nil => exact ⟨[], by simp [pascalParts, hpart], .inr ⟨rfl, id⟩⟩
  | cons next more =>
      by_cases hbreaks : Breaks crates part (next :: more)
      · refine ⟨['_'], ?_, .inl ⟨rfl, hbreaks⟩⟩
        have hcond : (part.getLast?.any crates.isNumeric && next.head?.any crates.isNumeric ||
            decide (next = [])) = true := by simpa [Breaks] using hbreaks
        rw [pascalParts, if_neg hpart]
        simp only [if_pos hcond, String.toList_append]
        rfl
      · refine ⟨[], ?_, .inr ⟨rfl, hbreaks⟩⟩
        have hcond : ¬ (part.getLast?.any crates.isNumeric && next.head?.any crates.isNumeric ||
            decide (next = [])) = true := by simpa [Breaks] using hbreaks
        rw [pascalParts, if_neg hpart]
        simp only [if_neg hcond, String.toList_append]
        rfl

theorem pascalParts_of_empty {parts : List (List Char)} (h : ∀ part ∈ parts, part = []) :
    pascalParts crates parts = "" := by
  induction parts with
  | nil => rfl
  | cons part rest ih =>
      obtain rfl := h part List.mem_cons_self
      exact ih fun part hpart => h part (List.mem_cons_of_mem _ hpart)

variable (hcase : ChangesCaseOnly crates)

include hcase

/-- The letters and digits of the parts, in order. -/
theorem letters_pascalParts {parts : List (List Char)}
    (hparts : ∀ part ∈ parts, ∀ c ∈ part, c.isAlphanum = true) :
    ((pascalParts crates parts).toList.filter (· ≠ '_')).map Char.toLower =
      parts.flatten.map Char.toLower := by
  induction parts with
  | nil => rfl
  | cons part rest ih =>
      have hrest := ih fun p hp => hparts p (List.mem_cons_of_mem _ hp)
      by_cases hempty : part = []
      · subst hempty
        simpa using hrest
      · have hpart := hparts part List.mem_cons_self
        obtain ⟨tail, hround, htail⟩ := @pascalParts_cons crates part hempty rest
        have hdropped : tail.filter (· ≠ '_') = [] := by
          rcases htail with ⟨rfl, -⟩ | ⟨rfl, -⟩ <;> simp
        rw [hround, List.filter_append, List.filter_append, filter_pascal hcase hpart, hdropped,
          List.append_nil, List.map_append, hrest, toLower_pascal hcase hpart,
          List.flatten_cons, List.map_append]

/-- A nonempty part leaves its first letter or digit. -/
theorem pascalParts_ne_nil {parts : List (List Char)}
    (hparts : ∀ part ∈ parts, ∀ c ∈ part, c.isAlphanum = true)
    (h : ∃ part ∈ parts, part ≠ []) : (pascalParts crates parts).toList ≠ [] := by
  intro hnil
  have hletters := letters_pascalParts hcase hparts
  rw [hnil] at hletters
  obtain ⟨part, hpart, hne⟩ := h
  have hflat : parts.flatten = [] := by simpa using hletters.symm
  exact hne (List.flatten_eq_nil_iff.mp hflat part hpart)

/-- The result ends with an underscore if the last part is empty. -/
theorem getLast?_pascalParts {parts : List (List Char)}
    (hparts : ∀ part ∈ parts, ∀ c ∈ part, c.isAlphanum = true)
    (h : ∃ part ∈ parts, part ≠ []) :
    (pascalParts crates parts).toList.getLast? = some '_' ↔ parts.getLast? = some [] := by
  induction parts with
  | nil => simp at h
  | cons part rest ih =>
      have hparts' : ∀ p ∈ rest, ∀ c ∈ p, c.isAlphanum = true :=
        fun p hp => hparts p (List.mem_cons_of_mem _ hp)
      by_cases hrest : ∃ p ∈ rest, p ≠ []
      · have hne : rest ≠ [] := by
          intro heq
          obtain rfl := heq
          simp at hrest
        have hlast : (part :: rest).getLast? = rest.getLast? := by
          obtain ⟨next, more, rfl⟩ := List.exists_cons_of_ne_nil hne
          exact List.getLast?_cons_cons
        rw [hlast, ← ih hparts' hrest]
        by_cases hempty : part = []
        · subst hempty
          rw [pascalParts_nil_cons]
        · obtain ⟨tail, hround, -⟩ := @pascalParts_cons crates part hempty rest
          rw [hround, List.getLast?_append_of_ne_nil _ (pascalParts_ne_nil hcase hparts' hrest)]
      · -- this part is the last one that is not empty
        push Not at hrest
        have hempty : part ≠ [] := by
          intro heq
          obtain rfl := heq
          obtain ⟨p, hp, hne⟩ := h
          rcases List.mem_cons.mp hp with rfl | hp
          · exact hne rfl
          · exact hne (hrest p hp)
        have hpart := hparts part List.mem_cons_self
        obtain ⟨tail, hround, htail⟩ := @pascalParts_cons crates part hempty rest
        rw [pascalParts_of_empty hrest] at hround
        cases rest with
        | nil =>
            rcases htail with ⟨-, hfalse⟩ | ⟨rfl, -⟩
            · exact absurd hfalse id
            · refine iff_of_false (fun hlast => ?_) (by simpa using hempty)
              have hmem := List.mem_of_getLast? (hround ▸ hlast)
              refine underscore_not_mem_pascal hcase hpart ?_
              simpa using hmem
        | cons next more =>
            obtain rfl := hrest next List.mem_cons_self
            have hlast : (part :: [] :: more).getLast? = some [] := by
              rw [List.getLast?_cons_cons]
              have hp := List.getLast?_eq_some_getLast (List.cons_ne_nil [] more)
              rw [hp, hrest _ (List.mem_of_getLast? hp)]
            refine iff_of_true ?_ hlast
            rcases htail with ⟨rfl, -⟩ | ⟨-, hnot⟩
            · rw [hround]
              simp
            · exact absurd (Or.inr rfl) hnot

/-- Two digits that meet at the end of a part: the loop would have kept them apart. -/
theorem breaks_of_digits {part : List Char} {rest : List (List Char)} {d e : Char}
    {after : List Char} (hpart : ∀ c ∈ part, c.isAlphanum = true)
    (hrest : ∀ p ∈ rest, ∀ c ∈ p, c.isAlphanum = true)
    (hlast : (crates.toPascalCase (String.ofList part)).toList.getLast? = some d)
    (hfirst : (pascalParts crates rest).toList = e :: after)
    (hd : d.isDigit = true) (he : e.isDigit = true) : Breaks crates part rest := by
  cases rest with
  | nil => cases hfirst
  | cons next more =>
      by_cases hempty : next = []
      · exact .inr hempty
      · obtain ⟨tail, hround, -⟩ := @pascalParts_cons crates next hempty more
        have hnext := hrest next List.mem_cons_self
        have hhead : (crates.toPascalCase (String.ofList next)).toList.head? = some e := by
          have hlength := length_pascal hcase hnext
          have hpos := List.length_pos_of_ne_nil hempty
          rw [hfirst] at hround
          cases hconv : (crates.toPascalCase (String.ofList next)).toList with
          | nil =>
              rw [hconv, List.length_nil] at hlength
              omega
          | cons c cs =>
              rw [hconv] at hround
              obtain ⟨rfl, -⟩ := List.cons.inj hround
              rfl
        refine .inl ⟨?_, ?_⟩
        · rw [getLast?_pascal_of_digit hcase hpart hd hlast]
          exact hcase.numeric d hd
        · rw [head?_pascal_of_digit hcase hnext he hhead]
          exact hcase.numeric e he

/-- Two neighbouring digits of a converted part, before whatever follows it. -/
theorem digits_in_part {part : List Char} (hpart : ∀ c ∈ part, c.isAlphanum = true)
    (rest : List (List Char)) {before own : List Char} {d e : Char}
    (hown : (crates.toPascalCase (String.ofList part)).toList = before ++ d :: e :: own)
    (hd : d.isDigit = true) (he : e.isDigit = true) : NeighboursAt (part :: rest) before d e := by
  obtain ⟨before', after', hin, hcount⟩ := digits_pascal hcase hpart hown hd he
  have hjoin : ∃ others, List.intercalate ['_'] (part :: rest) = part ++ others := by
    cases rest with
    | nil => exact ⟨[], by simp⟩
    | cons next more => exact ⟨_, by rw [List.intercalate_cons_cons, List.append_assoc]⟩
  obtain ⟨others, hjoin⟩ := hjoin
  refine ⟨before', after' ++ others, by rw [hjoin, hin]; simp, ?_⟩
  have hbefore' : ∀ c ∈ before', c.isAlphanum = true := fun c hc =>
    hpart c (hin ▸ List.mem_append_left _ hc)
  have hkept : before.filter (· ≠ '_') = before := by
    have hall := filter_pascal hcase hpart
    rw [hown, List.filter_eq_self] at hall
    exact List.filter_eq_self.mpr fun c hc => hall c (List.mem_append_left _ hc)
  rw [filter_of_isAlphanum hbefore', hkept, hcount]

omit hcase in
/-- Two neighbours of the other parts, behind what the first part has left. -/
theorem NeighboursAt.behind {part : List Char} (hpart : ∀ c ∈ part, c.isAlphanum = true)
    {rest : List (List Char)} {shown inner : List Char} {d e : Char}
    (hshown : (shown.filter (· ≠ '_')).length = part.length) (h : NeighboursAt rest inner d e) :
    NeighboursAt (part :: rest) (shown ++ inner) d e := by
  obtain ⟨before', after', hin, hcount⟩ := h
  have hne : rest ≠ [] := by
    intro heq
    obtain rfl := heq
    simp at hin
  refine ⟨part ++ '_' :: before', after', ?_, ?_⟩
  · rw [List.intercalate_cons_of_ne_nil hne, hin]
    simp
  · rw [List.filter_append, List.filter_append, List.length_append, List.length_append,
      hshown, filter_of_isAlphanum hpart, ← hcount]
    simp

/-- Two neighbouring digits behind a converted part and what the loop puts after it. -/
theorem digits_behind_part {part : List Char} (hpart : ∀ c ∈ part, c.isAlphanum = true)
    {rest : List (List Char)} {tail inner after : List Char} {d e : Char}
    (htail : tail = ['_'] ∨ tail = [])
    (hrest : ∀ {inner}, (pascalParts crates rest).toList = inner ++ d :: e :: after →
      NeighboursAt rest inner d e)
    (hinner : tail ++ (pascalParts crates rest).toList = inner ++ d :: e :: after)
    (hd : d.isDigit = true) :
    NeighboursAt (part :: rest)
      ((crates.toPascalCase (String.ofList part)).toList ++ inner) d e := by
  have hlength := (congrArg List.length (filter_pascal hcase hpart)).trans
    (length_pascal hcase hpart)
  rcases htail with rfl | rfl
  · cases inner with
    | nil => exact absurd (List.cons.inj hinner).1.symm (ne_underscore_of_isDigit hd)
    | cons c inner =>
        -- the underscore counts for nothing
        obtain ⟨rfl, hinner'⟩ := List.cons.inj hinner
        rw [List.append_cons]
        refine (hrest hinner').behind hpart ?_
        rw [List.filter_append, List.length_append, hlength]
        rfl
  · exact (hrest hinner).behind hpart hlength

/-- Two neighbouring digits of the result come from one part. -/
theorem digits_pascalParts {parts : List (List Char)}
    (hparts : ∀ part ∈ parts, ∀ c ∈ part, c.isAlphanum = true) {before after : List Char}
    {d e : Char} (h : (pascalParts crates parts).toList = before ++ d :: e :: after)
    (hd : d.isDigit = true) (he : e.isDigit = true) : NeighboursAt parts before d e := by
  induction parts generalizing before with
  | nil => simp [pascalParts] at h
  | cons part rest ih =>
      have hrest : ∀ p ∈ rest, ∀ c ∈ p, c.isAlphanum = true :=
        fun p hp => hparts p (List.mem_cons_of_mem _ hp)
      have hpart := hparts part List.mem_cons_self
      by_cases hempty : part = []
      · subst hempty
        have hshown : (([] : List Char).filter (· ≠ '_')).length = ([] : List Char).length := rfl
        exact (ih hrest h).behind hpart hshown
      obtain ⟨tail, hround, htail⟩ := @pascalParts_cons crates part hempty rest
      rw [hround, List.append_assoc] at h
      have hbehind : ∀ {inner}, tail ++ (pascalParts crates rest).toList = inner ++ d :: e :: after →
          NeighboursAt (part :: rest)
            ((crates.toPascalCase (String.ofList part)).toList ++ inner) d e := by
        intro inner hinner
        exact digits_behind_part hcase hpart (htail.imp And.left And.left) (ih hrest) hinner hd
      rcases List.append_eq_append_iff.mp h with ⟨inner, rfl, hinner⟩ | ⟨own, hown, hinner⟩
      · exact hbehind hinner
      · rcases own with _ | ⟨c, _ | ⟨c', own⟩⟩
        · have hbefore : before = (crates.toPascalCase (String.ofList part)).toList ++ [] := by
            simpa using hown.symm
          rw [hbefore]
          exact hbehind hinner.symm
        · -- the first digit ends the part: the loop would have kept the digits apart
          obtain ⟨rfl, hnext⟩ := List.cons.inj hinner
          rcases htail with ⟨rfl, -⟩ | ⟨rfl, hnot⟩
          · exact absurd (List.cons.inj hnext).1 (ne_underscore_of_isDigit he)
          · refine absurd (breaks_of_digits hcase hpart hrest ?_ hnext.symm hd he) hnot
            rw [hown]
            simp
        · obtain ⟨rfl, hnext⟩ := List.cons.inj hinner
          obtain ⟨rfl, -⟩ := List.cons.inj hnext
          exact digits_in_part hcase hpart rest hown hd he

end Parts

/-! ## The name -/

/-- The joined parts end with an underscore if the last of several is empty. -/
theorem getLast?_intercalate {parts : List (List Char)}
    (hparts : ∀ part ∈ parts, ∀ c ∈ part, c.isAlphanum = true) :
    (List.intercalate ['_'] parts).getLast? = some '_' ↔
      parts.getLast? = some [] ∧ 1 < parts.length := by
  induction parts with
  | nil => simp
  | cons part rest ih =>
      have hrest := ih fun p hp => hparts p (List.mem_cons_of_mem _ hp)
      cases rest with
      | nil =>
          refine iff_of_false (fun hlast => ?_) (by simp)
          rw [List.intercalate_singleton] at hlast
          exact ne_underscore_of_isAlphanum
            (hparts part List.mem_cons_self '_' (List.mem_of_getLast? hlast)) rfl
      | cons next more =>
          rw [List.intercalate_cons_cons, List.append_assoc, List.getLast?_append_of_ne_nil _ (by simp),
            List.getLast?_cons_cons]
          cases hmore : List.intercalate ['_'] (next :: more) with
          | nil =>
              have hnext : next = [] ∧ more = [] := by
                cases more with
                | nil => exact ⟨by simpa using hmore, rfl⟩
                | cons p ps => simp [List.intercalate_cons_cons] at hmore
              obtain ⟨rfl, rfl⟩ := hnext
              simp
          | cons c cs =>
              have hlong : (next :: more).getLast? = some [] → 1 < (next :: more).length := by
                intro hlast
                cases more with
                | nil =>
                    obtain rfl : next = [] := by simpa using hlast
                    simp at hmore
                | cons p ps => simp
              rw [List.singleton_append, List.getLast?_cons_cons, ← hmore, hrest]
              constructor
              · intro h
                exact ⟨h.1, by simp⟩
              · intro h
                exact ⟨h.1, hlong h.1⟩

/-- They start with one if the first of several is empty. -/
theorem head?_intercalate {parts : List (List Char)}
    (hparts : ∀ part ∈ parts, ∀ c ∈ part, c.isAlphanum = true) (hlong : 1 < parts.length) :
    (List.intercalate ['_'] parts).head? = some '_' ↔ parts.head? = some [] := by
  rcases parts with _ | ⟨part, _ | ⟨next, more⟩⟩
  · simp at hlong
  · simp at hlong
  · rw [List.intercalate_cons_cons, List.append_assoc]
    cases part with
    | nil => simp
    | cons c cs =>
        have hc := hparts (c :: cs) List.mem_cons_self c List.mem_cons_self
        simpa using ne_underscore_of_isAlphanum hc

/-- The letters and digits of the joined parts are those of the parts. -/
theorem filter_intercalate {parts : List (List Char)}
    (hparts : ∀ part ∈ parts, ∀ c ∈ part, c.isAlphanum = true) :
    (List.intercalate ['_'] parts).filter (· ≠ '_') = parts.flatten := by
  induction parts with
  | nil => rfl
  | cons part rest ih =>
      have hrest := ih fun p hp => hparts p (List.mem_cons_of_mem _ hp)
      have hpart := filter_of_isAlphanum (hparts part List.mem_cons_self)
      cases rest with
      | nil => simpa using hpart
      | cons next more =>
          rw [List.intercalate_cons_cons, List.filter_append, List.filter_append, hpart, hrest]
          simp

/-- The result of the loop, with the underscore that is put before it. -/
theorem keepsBoundaries_of_parts {crates : Crates} (hcase : ChangesCaseOnly crates)
    {parts : List (List Char)}
    (hparts : ∀ part ∈ parts, ∀ c ∈ part, c.isAlphanum = true) (hlong : 1 < parts.length) :
    KeepsBoundaries (List.intercalate ['_'] parts)
      ((if parts.head? = some [] then ['_'] else []) ++ (pascalParts crates parts).toList) := by
  have hsome : parts ≠ [] := by
    intro heq
    obtain rfl := heq
    simp at hlong
  refine ⟨?_, ?_, ?_, ?_⟩
  · have hlead : (if parts.head? = some [] then ['_'] else []).filter (· ≠ '_') = [] := by
      split <;> simp
    rw [List.filter_append, hlead, List.nil_append, letters_pascalParts hcase hparts,
      filter_intercalate hparts]
  · rw [head?_intercalate hparts hlong]
    by_cases hhead : parts.head? = some []
    · simp [hhead]
    · rw [if_neg hhead, List.nil_append]
      refine iff_of_false (fun hout => ?_) hhead
      obtain ⟨part, rest, rfl⟩ := List.exists_cons_of_ne_nil hsome
      have hpart := hparts part List.mem_cons_self
      have hne : part ≠ [] := by simpa using hhead
      obtain ⟨tail, hround, -⟩ := @pascalParts_cons crates part hne rest
      have hlength := length_pascal hcase hpart
      cases hconv : (crates.toPascalCase (String.ofList part)).toList with
      | nil =>
          rw [hconv, List.length_nil] at hlength
          exact hne (List.length_eq_zero_iff.mp hlength.symm)
      | cons c cs =>
          rw [hround, hconv] at hout
          obtain rfl : c = '_' := by simpa using hout
          apply underscore_not_mem_pascal hcase hpart
          rw [hconv]
          exact List.mem_cons_self
  · rw [getLast?_intercalate hparts]
    by_cases hany : ∃ part ∈ parts, part ≠ []
    · rw [List.getLast?_append_of_ne_nil _ (pascalParts_ne_nil hcase hparts hany),
        getLast?_pascalParts hcase hparts hany]
      simp [hlong]
    · -- a name of underscores
      push Not at hany
      obtain ⟨part, rest, rfl⟩ := List.exists_cons_of_ne_nil hsome
      obtain rfl := hany part List.mem_cons_self
      have hlast := List.getLast?_eq_some_getLast (List.cons_ne_nil [] rest)
      rw [pascalParts_of_empty hany, hlast, hany _ (List.mem_of_getLast? hlast)]
      simpa using hlong
  · intro before d e after h hd he
    split at h
    · cases before with
      | nil => exact absurd (List.cons.inj h).1.symm (ne_underscore_of_isDigit hd)
      | cons c before =>
          obtain ⟨rfl, hrest⟩ := List.cons.inj h
          simpa [NeighboursAt] using digits_pascalParts hcase hparts hrest hd he
    · exact digits_pascalParts hcase hparts h hd he

/-- **Pascal case.**  A name of letters, digits and underscores keeps its letters and digits
in order, its underscores at the ends, and the boundaries between its numbers.  The loop puts
an underscore where a part that ends in a digit meets one that begins with a digit or an empty
part, which is where joining the parts would lose a boundary. -/
theorem toPascalCase_keepsBoundaries {crates : Crates} (hcase : ChangesCaseOnly crates)
    {s : String} (hs : ∀ c ∈ s.toList, c.isAlphanum = true ∨ c = '_')
    (hunder : '_' ∈ s.toList) : KeepsBoundaries s.toList (toPascalCase crates s).toList := by
  have hparts : ∀ part ∈ splitChars (· == '_') s.toList, ∀ c ∈ part, c.isAlphanum = true := by
    intro part hpart c hc
    have hmem := List.mem_flatten.mpr ⟨part, hpart, hc⟩
    rw [flatten_splitChars, List.mem_filter] at hmem
    exact (hs c hmem.1).resolve_right (by simpa using hmem.2)
  have hjoin := intercalate_splitChars '_' s.toList
  have hlong : 1 < (splitChars (· == '_') s.toList).length := by
    rcases hsplit : splitChars (· == '_') s.toList with _ | ⟨part, _ | ⟨next, more⟩⟩
    · exact absurd hsplit (splitChars_ne_nil _ _)
    · rw [hsplit, List.intercalate_singleton] at hjoin
      have hpart := hparts part (hsplit ▸ List.mem_cons_self)
      exact absurd rfl (ne_underscore_of_isAlphanum (hpart '_' (hjoin ▸ hunder)))
    · simp
  have hresult : (toPascalCase crates s).toList =
      (if (splitChars (· == '_') s.toList).head? = some [] then ['_'] else []) ++
        (pascalParts crates (splitChars (· == '_') s.toList)).toList := by
    rw [toPascalCase, if_pos hunder, String.toList_append]
    split <;> rfl
  have hkeeps := keepsBoundaries_of_parts hcase hparts hlong
  rwa [hjoin, ← hresult] at hkeeps

/-- The words of a name hold everything but the separators. -/
theorem AsciiCrates.flatten_wordChars (small : Bool) (cs : List Char) :
    (AsciiCrates.wordChars small cs).flatten = cs.filter (!AsciiCrates.isSeparator ·) := by
  induction cs generalizing small with
  | nil => rfl
  | cons c cs ih =>
      rw [AsciiCrates.wordChars]
      by_cases hc : AsciiCrates.isSeparator c = true
      · simp [hc, ih]
      · rw [if_neg hc, List.filter_cons_of_pos (by simpa using hc), ← ih c.isLower]
        cases AsciiCrates.wordChars c.isLower cs with
        | nil => rfl
        | cons word words =>
            dsimp only
            split <;> rfl

theorem AsciiCrates.isSeparator_of_isAlphanum {c : Char} (h : c.isAlphanum = true) :
    AsciiCrates.isSeparator c = false := by
  rw [← Bool.not_eq_true]
  intro hsep
  simp only [AsciiCrates.isSeparator, Bool.or_eq_true, beq_iff_eq] at hsep
  rcases hsep with (rfl | rfl) | rfl <;> exact absurd h (by decide)

/-- Words that are changed one by one, up to `f`. -/
theorem map_flatMap_words {f : Char → Char} {change : List Char → List Char}
    (hchange : ∀ word, (change word).map f = word.map f) (words : List (List Char)) :
    (words.flatMap change).map f = words.flatten.map f := by
  induction words with
  | nil => rfl
  | cons word rest ih =>
      rw [List.flatMap_cons, List.map_append, ih, hchange, List.flatten_cons, List.map_append]

theorem changesCaseOnly_asciiCrates : ChangesCaseOnly asciiCrates := by
  refine ⟨fun s hs => ?_, fun c hc => hc⟩
  have hwords : (AsciiCrates.words s).flatten = s.toList := by
    rw [AsciiCrates.words, AsciiCrates.flatten_wordChars, List.filter_eq_self.mpr fun c hc => ?_]
    rw [AsciiCrates.isSeparator_of_isAlphanum (hs c hc)]
    rfl
  change (AsciiCrates.toPascalCase s).toList.map Char.toLower = s.toList.map Char.toLower
  rw [AsciiCrates.toPascalCase, String.toList_ofList, ← hwords]
  refine map_flatMap_words (fun word => ?_) _
  cases word with
  | nil => rfl
  | cons c cs => simp [Function.comp_def]

/-- Two numbers at the end stay two numbers. -/
theorem keepsBoundaries_fooBar :
    toPascalCase asciiCrates "FOO_BAR_1_2_" = "FooBar1_2_" ∧
      KeepsBoundaries "FOO_BAR_1_2_".toList (toPascalCase asciiCrates "FOO_BAR_1_2_").toList :=
  ⟨by decide, toPascalCase_keepsBoundaries changesCaseOnly_asciiCrates (by simp) (by decide)⟩

end Svd2Rust
