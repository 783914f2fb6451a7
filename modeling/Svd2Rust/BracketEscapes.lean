import Svd2Rust.Identifiers

/-!
# Escaping the brackets of a text

`escape_brackets` rejoins the pieces between `[`, then those between `]`, and puts a
backslash before each bracket that has none.  Read character by character, a fold only
appends.  It takes an empty accumulator for the start of the text, though, and before a
leading bracket the accumulator is empty as well: a leading run of the bracket is lost.
-/

namespace Svd2Rust

open RustStrings

/-- The second text is the first with backslashes inserted, each directly before a
character of the kind. -/
inductive Escaped (kind : Char → Bool) : List Char → List Char → Prop
  | nil : Escaped kind [] []
  | keep (c : Char) {s r : List Char} (rest : Escaped kind s r) :
      Escaped kind (c :: s) (c :: r)
  | escape {b : Char} {s r : List Char} (hb : kind b = true) (rest : Escaped kind s r) :
      Escaped kind (b :: s) ('\\' :: b :: r)

/-- Every character of the kind has a backslash before it. -/
def Guarded (kind : Char → Bool) (r : List Char) : Prop :=
  ∀ before b after, r = before ++ b :: after → kind b = true → before.getLast? = some '\\'

def isBracket (c : Char) : Bool := c == '[' || c == ']'

def StartsWithBracket (s : String) : Prop :=
  s.toList.head? = some '[' ∨ s.toList.head? = some ']'

/-- What is promised of an escaping function for a text: it inserts backslashes before
brackets only, every bracket has one if the function acts at all, and nothing is left
to do. -/
structure EscapesBrackets (escape : String → String) (triggered : Bool) (s : String) : Prop where
  inserted : Escaped isBracket s.toList (escape s).toList
  guarded : triggered = true → Guarded isBracket (escape s).toList
  idempotent : escape (escape s) = escape s

/-! ## A fold as a loop over the characters -/

/-- The body of a `fold` of `escape_brackets`. -/
def joinPiece (bracket : Char) (acc piece : String) : String :=
  if acc = "" then piece
  else if endsWith acc "\\" then acc ++ String.ofList [bracket] ++ piece
  else acc ++ "\\" ++ String.ofList [bracket] ++ piece

/-- What one character of the text adds. -/
def escapeStep (bracket : Char) (acc : List Char) (c : Char) : List Char :=
  if c = bracket then
    if acc = [] then [] else if acc.getLast? = some '\\' then acc ++ [c] else acc ++ ['\\', c]
  else acc ++ [c]

/-- A separator and the piece after it. -/
theorem joinPiece_toList (bracket : Char) (acc : String) (piece : List Char) :
    (joinPiece bracket acc (String.ofList piece)).toList =
      escapeStep bracket acc.toList bracket ++ piece := by
  unfold joinPiece escapeStep
  rw [if_pos rfl]
  by_cases hempty : acc = ""
  · subst hempty
    simp
  · have hne : acc.toList ≠ [] := by simpa using hempty
    rw [if_neg hempty, if_neg hne]
    by_cases hlast : acc.toList.getLast? = some '\\'
    · rw [if_pos ((endsWith_of_char rfl).mpr hlast), if_pos hlast]
      simp
    · rw [if_neg ((endsWith_of_char rfl).not.mpr hlast), if_neg hlast]
      simp

/-- The pieces that are left, joined to a text that the first of them was added to. -/
theorem foldl_joinPiece {bracket : Char} {cs piece : List Char} {pieces : List (List Char)}
    (h : splitChars (· == bracket) cs = piece :: pieces) (acc : String) :
    ((pieces.map String.ofList).foldl (joinPiece bracket)
        (acc ++ String.ofList piece)).toList = cs.foldl (escapeStep bracket) acc.toList := by
  induction cs generalizing piece pieces acc with
  | nil =>
      obtain ⟨rfl, rfl⟩ := List.cons.inj h
      simp
  | cons c cs ih =>
      by_cases hc : c = bracket
      · subst hc
        rw [splitChars_cons_sep (by simp)] at h
        obtain ⟨rfl, rfl⟩ := List.cons.inj h
        obtain ⟨next, rest, hsplit⟩ :=
          List.exists_cons_of_ne_nil (splitChars_ne_nil (· == c) cs)
        have hjoin : joinPiece c acc (String.ofList next) =
            String.ofList (escapeStep c acc.toList c) ++ String.ofList next := by
          apply String.toList_inj.mp
          rw [joinPiece_toList, String.toList_append, String.toList_ofList,
            String.toList_ofList]
        rw [hsplit, List.map_cons, List.foldl_cons, List.foldl_cons, String.ofList_nil,
          String.append_empty, hjoin, ih hsplit, String.toList_ofList]
      · obtain ⟨first, rest, hsplit, hcons⟩ :=
          @splitChars_cons_keep (· == bracket) c cs (by simpa using hc)
        rw [hcons] at h
        obtain ⟨rfl, rfl⟩ := List.cons.inj h
        have hmove : acc ++ String.ofList (c :: first) =
            acc ++ String.ofList [c] ++ String.ofList first := by
          apply String.toList_inj.mp
          simp
        rw [hmove, ih hsplit, List.foldl_cons, escapeStep, if_neg hc]
        simp

theorem escapeBracket_toList (bracket : Char) (s : String) :
    (escapeBracket bracket s).toList = s.toList.foldl (escapeStep bracket) [] := by
  obtain ⟨piece, pieces, hsplit⟩ :=
    List.exists_cons_of_ne_nil (splitChars_ne_nil (· == bracket) s.toList)
  have hfold : escapeBracket bracket s =
      ((splitChars (· == bracket) s.toList).map String.ofList).foldl (joinPiece bracket) "" := rfl
  have hloop := foldl_joinPiece hsplit ""
  rw [String.empty_append] at hloop
  rw [hfold, hsplit, List.map_cons, List.foldl_cons, joinPiece, if_pos rfl, hloop]
  rfl

/-! ## Insertions -/

section Insertions

variable {kind : Char → Bool} {s s' r r' : List Char}

theorem Escaped.refl (kind : Char → Bool) (s : List Char) : Escaped kind s s := by
  induction s with
  | nil => exact .nil
  | cons c s ih => exact .keep c ih

theorem Escaped.append (h : Escaped kind s r) (h' : Escaped kind s' r') :
    Escaped kind (s ++ s') (r ++ r') := by
  induction h with
  | nil => exact h'
  | keep c _ ih => exact .keep c ih
  | escape hb _ ih => exact .escape hb ih

/-- Insertions before `[` followed by insertions before `]`. -/
theorem Escaped.comp {t : List Char} (h : Escaped (· == '[') s r)
    (h' : Escaped (· == ']') r t) : Escaped isBracket s t := by
  induction h generalizing t with
  | nil =>
      cases h'
      exact .nil
  | keep c _ ih =>
      cases h' with
      | keep _ rest => exact .keep c (ih rest)
      | escape hb rest => exact .escape (Bool.or_eq_true_iff.mpr (.inr hb)) (ih rest)
  | escape hb _ ih =>
      -- the second pass meets the inserted backslash and then the `[`
      cases h' with
      | keep _ rest =>
          cases rest with
          | keep _ rest => exact .escape (Bool.or_eq_true_iff.mpr (.inl hb)) (ih rest)
          | escape hb' _ =>
              obtain rfl := eq_of_beq hb
              simp at hb'
      | escape hb' _ => simp at hb'

/-- Only backslashes are added. -/
theorem Escaped.count_eq (h : Escaped kind s r) {c : Char} (hc : c ≠ '\\') :
    r.count c = s.count c := by
  induction h with
  | nil => rfl
  | keep d _ ih => simp [List.count_cons, ih]
  | escape _ _ ih => simp [List.count_cons, ih, Ne.symm hc]

/-- A text that starts with another character starts with it afterwards. -/
theorem Escaped.head?_eq (h : Escaped kind s r) (hhead : ∀ c ∈ s.head?, kind c = false) :
    r.head? = s.head? := by
  cases h with
  | nil => rfl
  | keep c _ => rfl
  | escape hb _ =>
      rw [hhead _ rfl] at hb
      cases hb

theorem escapeStep_ne_nil {bracket : Char} {acc : List Char} (hacc : acc ≠ []) (c : Char) :
    escapeStep bracket acc c ≠ [] := by
  unfold escapeStep
  rw [if_neg hacc]
  split
  · split <;> simp
  · simp

/-- Once the text has begun a fold only inserts. -/
theorem escaped_foldl {bracket : Char} {done acc : List Char}
    (h : Escaped (· == bracket) done acc) (hacc : acc ≠ []) (cs : List Char) :
    Escaped (· == bracket) (done ++ cs) (cs.foldl (escapeStep bracket) acc) := by
  induction cs generalizing done acc with
  | nil => simpa using h
  | cons c cs ih =>
      have hstep : Escaped (· == bracket) (done ++ [c]) (escapeStep bracket acc c) := by
        unfold escapeStep
        by_cases hc : c = bracket
        · rw [if_pos hc, if_neg hacc]
          split
          · exact h.append (.keep c .nil)
          · exact h.append (.escape (by simpa using hc) .nil)
        · rw [if_neg hc]
          exact h.append (.keep c .nil)
      simpa using ih hstep (escapeStep_ne_nil hacc c)

theorem escapeBracket_escaped {bracket : Char} {s : String}
    (h : s.toList.head? ≠ some bracket) :
    Escaped (· == bracket) s.toList (escapeBracket bracket s).toList := by
  rw [escapeBracket_toList]
  cases hs : s.toList with
  | nil => exact .nil
  | cons c cs =>
      have hc : c ≠ bracket := by
        intro hc
        simp [hs, hc] at h
      have hfirst : escapeStep bracket [] c = [c] := by simp [escapeStep, hc]
      rw [List.foldl_cons, hfirst]
      exact escaped_foldl (.keep c .nil) (by simp) cs

end Insertions

/-! ## What a leading run loses -/

section Counts

variable {bracket d : Char}

theorem count_escapeStep_le (hd : d ≠ '\\') (acc : List Char) (c : Char) :
    (escapeStep bracket acc c).count d ≤ acc.count d + [c].count d := by
  unfold escapeStep
  split
  · split
    · simp
    split
    · rw [List.count_append]
    · simp [List.count_append, List.count_cons, Ne.symm hd]
  · rw [List.count_append]

/-- A fold adds no character but backslashes. -/
theorem count_foldl_le (hd : d ≠ '\\') (acc cs : List Char) :
    (cs.foldl (escapeStep bracket) acc).count d ≤ acc.count d + cs.count d := by
  induction cs generalizing acc with
  | nil => simp
  | cons c cs ih =>
      have hstep := @count_escapeStep_le bracket d hd acc c
      have hcons : (c :: cs).count d = [c].count d + cs.count d := by
        rw [← List.count_append]
        rfl
      calc ((c :: cs).foldl (escapeStep bracket) acc).count d
          ≤ (escapeStep bracket acc c).count d + cs.count d := ih _
        _ ≤ acc.count d + [c].count d + cs.count d := Nat.add_le_add_right hstep _
        _ = acc.count d + (c :: cs).count d := by rw [hcons, Nat.add_assoc]

theorem count_escapeBracket_le (hd : d ≠ '\\') (s : String) :
    (escapeBracket bracket s).toList.count d ≤ s.toList.count d := by
  have hle := @count_foldl_le bracket d hd [] s.toList
  rw [escapeBracket_toList]
  simpa using hle

/-- The leading bracket is gone. -/
theorem count_escapeBracket_lt (hbracket : bracket ≠ '\\') {s : String}
    (h : s.toList.head? = some bracket) :
    (escapeBracket bracket s).toList.count bracket < s.toList.count bracket := by
  obtain ⟨cs, hs⟩ := List.head?_eq_some_iff.mp h
  have hle := @count_foldl_le bracket bracket hbracket [] cs
  have hfirst : escapeStep bracket [] bracket = [] := by simp [escapeStep]
  rw [escapeBracket_toList, hs, List.foldl_cons, hfirst, List.count_cons_self]
  simpa using Nat.lt_succ_of_le hle

end Counts

theorem escapeBrackets_escaped_iff (s : String) :
    Escaped isBracket s.toList (escapeBrackets s).toList ↔ ¬ StartsWithBracket s := by
  unfold escapeBrackets
  constructor
  · intro h hcase
    rcases hcase with hopen | hclose
    · have hlt := count_escapeBracket_lt (by decide) hopen
      have hle := @count_escapeBracket_le ']' '[' (by decide) (escapeBracket '[' s)
      have heq := h.count_eq (c := '[') (by decide)
      omega
    · have hfirst := @escapeBracket_escaped '[' s (by simp [hclose])
      have hhead : (escapeBracket '[' s).toList.head? = some ']' := by
        rw [hfirst.head?_eq (by simp [hclose]), hclose]
      have hlt := count_escapeBracket_lt (by decide) hhead
      have hsame := hfirst.count_eq (c := ']') (by decide)
      have heq := h.count_eq (c := ']') (by decide)
      omega
  · intro h
    obtain ⟨hopen, hclose⟩ := not_or.mp h
    have hfirst := escapeBracket_escaped hopen
    refine hfirst.comp (escapeBracket_escaped ?_)
    rwa [hfirst.head?_eq]
    intro c hc
    rw [beq_eq_false_iff_ne]
    intro heq
    obtain rfl := heq
    exact hopen hc

/-! ## What a fold leaves to do -/

section Guards

variable {kind : Char → Bool} {bracket : Char}

theorem guarded_nil (kind : Char → Bool) : Guarded kind [] := by
  intro before b after h
  simp at h

theorem guarded_concat {acc : List Char} {c : Char} :
    Guarded kind (acc ++ [c]) ↔
      Guarded kind acc ∧ (kind c = true → acc.getLast? = some '\\') := by
  constructor
  · intro h
    refine ⟨fun before b after hacc => h before b (after ++ [c]) (by simp [hacc]), ?_⟩
    exact h acc c [] rfl
  · intro hguarded before b after h hb
    obtain ⟨hacc, hlast⟩ := hguarded
    rcases List.eq_nil_or_concat after with rfl | ⟨after, d, rfl⟩
    · obtain ⟨rfl, hc⟩ := List.append_inj' h rfl
      obtain rfl := List.singleton_inj.mp hc
      exact hlast hb
    · rw [List.concat_eq_append, ← List.cons_append, ← List.append_assoc] at h
      exact hacc before b after (List.append_inj' h rfl).1 hb

theorem guarded_or {kind' : Char → Bool} {r : List Char} (h : Guarded kind r)
    (h' : Guarded kind' r) : Guarded (fun c => kind c || kind' c) r := by
  intro before b after hr hb
  rcases Bool.or_eq_true_iff.mp hb with hb | hb
  · exact h before b after hr hb
  · exact h' before b after hr hb

/-- Every bracket the fold appends has a backslash before it. -/
theorem guarded_foldl (hbracket : bracket ≠ '\\') {acc : List Char}
    (h : Guarded (· == bracket) acc) (cs : List Char) :
    Guarded (· == bracket) (cs.foldl (escapeStep bracket) acc) := by
  induction cs generalizing acc with
  | nil => exact h
  | cons c cs ih =>
      apply ih
      unfold escapeStep
      by_cases hc : c = bracket
      · rw [if_pos hc]
        split
        · exact guarded_nil _
        split
        · exact guarded_concat.mpr ⟨h, fun _ => ‹_›⟩
        · have hslash : Guarded (· == bracket) (acc ++ ['\\']) :=
            guarded_concat.mpr ⟨h, fun hb => absurd (eq_of_beq hb).symm hbracket⟩
          have hboth := guarded_concat.mpr ⟨hslash, fun (_ : (c == bracket) = true) => by simp⟩
          simpa using hboth
      · rw [if_neg hc]
        exact guarded_concat.mpr ⟨h, fun hb => absurd (eq_of_beq hb) hc⟩

/-- Characters of another kind keep the backslash before them: what the fold has read
ends in one only if what it has written does. -/
theorem guarded_foldl_other (hbracket : kind bracket = false) (hslash : kind '\\' = false)
    (hne : bracket ≠ '\\') {done acc cs : List Char} (hread : Guarded kind (done ++ cs))
    (h : Guarded kind acc) (hlast : done.getLast? = some '\\' → acc.getLast? = some '\\') :
    Guarded kind (cs.foldl (escapeStep bracket) acc) := by
  induction cs generalizing done acc with
  | nil => exact h
  | cons c cs ih =>
      have hread' : Guarded kind (done ++ [c] ++ cs) := by simpa using hread
      refine ih hread' ?_ ?_
      · unfold escapeStep
        by_cases hc : c = bracket
        · subst hc
          rw [if_pos rfl]
          split
          · exact guarded_nil _
          split
          · exact guarded_concat.mpr ⟨h, by simp [hbracket]⟩
          · have hfirst : Guarded kind (acc ++ ['\\']) :=
              guarded_concat.mpr ⟨h, by simp [hslash]⟩
            have hboth : Guarded kind (acc ++ ['\\'] ++ [c]) :=
              guarded_concat.mpr ⟨hfirst, by simp [hbracket]⟩
            simpa using hboth
        · rw [if_neg hc]
          exact guarded_concat.mpr ⟨h, fun hb => hlast (hread done c cs rfl hb)⟩
      · intro hc
        obtain rfl : c = '\\' := by simpa using hc
        simp [escapeStep, Ne.symm hne]

/-- A text with a backslash before every bracket is left as it is. -/
theorem foldl_eq_of_guarded {acc cs : List Char} (h : Guarded (· == bracket) (acc ++ cs)) :
    cs.foldl (escapeStep bracket) acc = acc ++ cs := by
  induction cs generalizing acc with
  | nil => simp
  | cons c cs ih =>
      have hstep : escapeStep bracket acc c = acc ++ [c] := by
        unfold escapeStep
        by_cases hc : c = bracket
        · have hlast := h acc c cs rfl (by simpa using hc)
          have hacc : acc ≠ [] := by
            intro heq
            obtain rfl := heq
            simp at hlast
          rw [if_pos hc, if_neg hacc, if_pos hlast]
        · rw [if_neg hc]
      rw [List.foldl_cons, hstep, ih (by simpa using h)]
      simp

theorem escapeBracket_eq_of_guarded {s : String} (h : Guarded (· == bracket) s.toList) :
    escapeBracket bracket s = s := by
  apply String.toList_inj.mp
  rw [escapeBracket_toList]
  exact foldl_eq_of_guarded h

end Guards

/-- No bracket of the result is without a backslash. -/
theorem escapeBrackets_guarded (s : String) : Guarded isBracket (escapeBrackets s).toList := by
  have hopen : Guarded (· == '[') (escapeBracket '[' s).toList := by
    rw [escapeBracket_toList]
    exact guarded_foldl (by decide) (guarded_nil _) _
  unfold escapeBrackets
  rw [escapeBracket_toList]
  refine guarded_or ?_ (guarded_foldl (by decide) (guarded_nil _) _)
  exact @guarded_foldl_other _ ']' (by decide) (by decide) (by decide) [] [] _ hopen
    (guarded_nil _) id

theorem escapeBrackets_idempotent (s : String) :
    escapeBrackets (escapeBrackets s) = escapeBrackets s := by
  have h := escapeBrackets_guarded s
  have hopen : escapeBracket '[' (escapeBrackets s) = escapeBrackets s :=
    escapeBracket_eq_of_guarded fun before b after hr hb =>
      h before b after hr (Bool.or_eq_true_iff.mpr (.inl hb))
  have hclose : escapeBracket ']' (escapeBrackets s) = escapeBrackets s :=
    escapeBracket_eq_of_guarded fun before b after hr hb =>
      h before b after hr (Bool.or_eq_true_iff.mpr (.inr hb))
  have hunfold : escapeBrackets (escapeBrackets s) =
      escapeBracket ']' (escapeBracket '[' (escapeBrackets s)) := rfl
  rw [hunfold, hopen, hclose]

theorem escapeSpecialChars_idempotent (s : String) :
    escapeSpecialChars (escapeSpecialChars s) = escapeSpecialChars s := by
  by_cases h : contains s "[" = true
  · have hone : escapeSpecialChars s = escapeBrackets s := if_pos h
    rw [hone, escapeSpecialChars, escapeBrackets_idempotent, ite_self]
  · have hone : escapeSpecialChars s = s := if_neg h
    rw [hone, hone]

/-- Escaping loses nothing exactly if the text it acts on does not start with a bracket.  The
pieces around a bracket are joined again unless the text before is still empty, and it is
empty in front of a leading bracket, which is lost. -/
theorem escapesBrackets_iff (s : String) :
    (EscapesBrackets escapeBrackets true s ↔ ¬ StartsWithBracket s) ∧
      (EscapesBrackets escapeSpecialChars (contains s "[") s ↔
        (contains s "[" = true → ¬ StartsWithBracket s)) := by
  constructor
  · constructor
    · intro h
      exact (escapeBrackets_escaped_iff s).mp h.inserted
    · intro h
      exact ⟨(escapeBrackets_escaped_iff s).mpr h, fun _ => escapeBrackets_guarded s,
        escapeBrackets_idempotent s⟩
  · by_cases hopen : contains s "[" = true
    · have hone : escapeSpecialChars s = escapeBrackets s := if_pos hopen
      constructor
      · intro h _
        apply (escapeBrackets_escaped_iff s).mp
        rw [← hone]
        exact h.inserted
      · intro h
        refine ⟨?_, fun _ => ?_, escapeSpecialChars_idempotent s⟩
        · rw [hone]
          exact (escapeBrackets_escaped_iff s).mpr (h hopen)
        · rw [hone]
          exact escapeBrackets_guarded s
    · have hone : escapeSpecialChars s = s := if_neg hopen
      refine iff_of_true ⟨?_, fun h => absurd h hopen, escapeSpecialChars_idempotent s⟩
        fun h => absurd h hopen
      rw [hone]
      exact Escaped.refl _ _

/-- The opening bracket of a leading bit range is not in the result. -/
theorem escapeSpecialChars_leadingRange :
    escapeSpecialChars "[7:0] data" = "7:0\\] data" ∧
      ¬ EscapesBrackets escapeSpecialChars (contains "[7:0] data" "[") "[7:0] data" := by
  refine ⟨by decide, fun h => ?_⟩
  have hcount := h.inserted.count_eq (c := '[') (by decide)
  revert hcount
  decide

end Svd2Rust
