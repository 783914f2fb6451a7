import Mathlib.Order.Lattice
import Mathlib.Order.MinMax
import Mathlib.Logic.Relation
import Mathlib.Tactic.Tauto

/-!
# Overlapping half-open spans and their chains

Items occupy half-open spans `[lo, hi)` of a linear order.  Two items overlap
when the spans share a point, and a chain is a sequence of items in which
neighbours overlap.  `IsHull members start stop` says that `[start, stop)` is
exactly the union of the members' spans and that the members form one chain
component.

The two facts every merging algorithm rests on are here: hulls that meet a new
span merge with it into one hull (`IsHull.absorb`), and no chain leaves a hull
that is disjoint from all others (`linked_stays`).
-/

namespace OverlapChains

variable {ι α : Type*} [LinearOrder α] (lo hi : ι → α)

/-- The spans of `a` and `b` share a point. -/
def Overlap (a b : ι) : Prop :=
  max (lo a) (lo b) < min (hi a) (hi b)

instance (a b : ι) : Decidable (Overlap lo hi a b) :=
  inferInstanceAs (Decidable (_ < _))

/-- `b` is reached from `a` by neighbours that overlap, all of them in `items`. -/
def Linked (items : List ι) : ι → ι → Prop :=
  Relation.ReflTransGen (fun a b => a ∈ items ∧ b ∈ items ∧ Overlap lo hi a b)

/-- `[start, stop)` is the union of the members' spans, and the members are
linked with each other. -/
structure IsHull (members : List ι) (start stop : α) : Prop where
  cover : ∀ x, (start ≤ x ∧ x < stop) ↔ ∃ m ∈ members, lo m ≤ x ∧ x < hi m
  linked : ∀ a ∈ members, ∀ b ∈ members, Linked lo hi members a b

variable {lo hi}

theorem overlap_iff {a b : ι} :
    Overlap lo hi a b ↔ lo a < hi a ∧ lo a < hi b ∧ lo b < hi a ∧ lo b < hi b := by
  simp only [Overlap, max_lt_iff, lt_min_iff]
  tauto

theorem Overlap.symm {a b : ι} (h : Overlap lo hi a b) : Overlap lo hi b a := by
  rw [overlap_iff] at *
  tauto

/-- Items with nonempty spans that share a point overlap. -/
theorem overlap_of_common {a b : ι} {x : α} (ha : lo a ≤ x ∧ x < hi a)
    (hb : lo b ≤ x ∧ x < hi b) : Overlap lo hi a b :=
  overlap_iff.mpr ⟨ha.1.trans_lt ha.2, ha.1.trans_lt hb.2, hb.1.trans_lt ha.2, hb.1.trans_lt hb.2⟩

theorem Linked.symm {items : List ι} {a b : ι} (h : Linked lo hi items a b) :
    Linked lo hi items b a := by
  induction h with
  | refl => exact .refl
  | tail _ hstep ih => exact .head ⟨hstep.2.1, hstep.1, hstep.2.2.symm⟩ ih

theorem Linked.trans {items : List ι} {a b c : ι} (hab : Linked lo hi items a b)
    (hbc : Linked lo hi items b c) : Linked lo hi items a c :=
  Relation.ReflTransGen.trans hab hbc

/-- Chains survive when items are added. -/
theorem Linked.mono {items more : List ι} (hsub : ∀ a ∈ items, a ∈ more) {a b : ι}
    (h : Linked lo hi items a b) : Linked lo hi more a b :=
  Relation.ReflTransGen.mono (fun _ _ hab => ⟨hsub _ hab.1, hsub _ hab.2.1, hab.2.2⟩) _ _ h

/-- A single item is the hull of its own span. -/
theorem IsHull.singleton (a : ι) : IsHull lo hi [a] (lo a) (hi a) where
  cover x := by simp
  linked b hb c hc := by
    rw [List.mem_singleton.mp hb, List.mem_singleton.mp hc]
    exact .refl

/-- A hull that shares a point with an item has a member overlapping that item. -/
theorem IsHull.exists_overlap {members : List ι} {start stop : α}
    (h : IsHull lo hi members start stop) {a : ι}
    (hmeet : max start (lo a) < min stop (hi a)) : ∃ m ∈ members, Overlap lo hi a m := by
  have hstop : max start (lo a) < stop := hmeet.trans_le (min_le_left _ _)
  have hitem : max start (lo a) < hi a := hmeet.trans_le (min_le_right _ _)
  obtain ⟨m, hm, hx⟩ := (h.cover _).mp ⟨le_max_left _ _, hstop⟩
  exact ⟨m, hm, overlap_of_common ⟨le_max_right _ _, hitem⟩ hx⟩

/-- Two intervals that share the point `p` have an interval as their union. -/
theorem union_of_common {s t s' t' p : α} (hp : s ≤ p ∧ p < t) (hp' : s' ≤ p ∧ p < t') (x : α) :
    (min s s' ≤ x ∧ x < max t t') ↔ (s ≤ x ∧ x < t) ∨ (s' ≤ x ∧ x < t') := by
  rw [min_le_iff, lt_max_iff]
  rcases le_or_gt x p with hxp | hpx
  · have hxt : x < t := hxp.trans_lt hp.2
    have hxt' : x < t' := hxp.trans_lt hp'.2
    tauto
  · have hsx : s ≤ x := hp.1.trans hpx.le
    have hsx' : s' ≤ x := hp'.1.trans hpx.le
    tauto

/-- **Absorption.**  A hull around the item `a` absorbs another hull that meets
the span of `a`, and the result is again a hull. -/
theorem IsHull.absorb {ms ns : List ι} {s t s' t' : α} {a : ι}
    (hm : IsHull lo hi ms s t) (hn : IsHull lo hi ns s' t') (ha : a ∈ ms)
    (hmeet : max s' (lo a) < min t' (hi a)) :
    IsHull lo hi (ms ++ ns) (min s s') (max t t') := by
  obtain ⟨m, hmn, hover⟩ := hn.exists_overlap hmeet
  have hin : max s' (lo a) < t' := hmeet.trans_le (min_le_left _ _)
  have hina : max s' (lo a) < hi a := hmeet.trans_le (min_le_right _ _)
  constructor
  · intro x
    have hp := (hm.cover (max s' (lo a))).mpr ⟨a, ha, le_max_right _ _, hina⟩
    rw [union_of_common hp ⟨le_max_left _ _, hin⟩, hm.cover, hn.cover]
    simp only [List.mem_append, or_and_right, exists_or]
  · have hleft : ∀ b ∈ ms, Linked lo hi (ms ++ ns) b a := fun b hb =>
      (hm.linked b hb a ha).mono fun c hc => List.mem_append_left _ hc
    have hright : ∀ b ∈ ns, Linked lo hi (ms ++ ns) b a := by
      intro b hb
      have hbm : Linked lo hi (ms ++ ns) b m :=
        (hn.linked b hb m hmn).mono fun c hc => List.mem_append_right _ hc
      exact hbm.tail ⟨List.mem_append_right _ hmn, List.mem_append_left _ ha, hover.symm⟩
    have hto : ∀ b ∈ ms ++ ns, Linked lo hi (ms ++ ns) b a := by
      intro b hb
      rcases List.mem_append.mp hb with hb | hb
      · exact hleft b hb
      · exact hright b hb
    exact fun b hb c hc => (hto b hb).trans (hto c hc).symm

/-- Hulls do not depend on the order of their members. -/
theorem IsHull.perm {ms ns : List ι} {s t : α} (h : IsHull lo hi ms s t) (hp : ms.Perm ns) :
    IsHull lo hi ns s t where
  cover x := by simp only [h.cover, hp.mem_iff]
  linked a ha b hb :=
    (h.linked a (hp.mem_iff.mpr ha) b (hp.mem_iff.mpr hb)).mono fun _ hc => hp.mem_iff.mp hc

/-- Nonempty hulls of the same members are the same. -/
theorem IsHull.unique {members : List ι} {s t s' t' : α} (h : IsHull lo hi members s t)
    (h' : IsHull lo hi members s' t') (hne : s < t) : s' = s ∧ t' = t := by
  have hsame : ∀ x, (s ≤ x ∧ x < t) ↔ (s' ≤ x ∧ x < t') := fun x => (h.cover x).trans (h'.cover x).symm
  obtain ⟨hle, hlt⟩ := (hsame s).mp ⟨le_rfl, hne⟩
  obtain ⟨hge, -⟩ := (hsame s').mpr ⟨le_rfl, hle.trans_lt hlt⟩
  refine ⟨le_antisymm hle hge, le_antisymm ?_ ?_⟩
  · by_contra hgt
    exact lt_irrefl t ((hsame t).mpr ⟨hle.trans hne.le, not_le.mp hgt⟩).2
  · by_contra hgt
    exact lt_irrefl t' ((hsame t').mp ⟨hge.trans (hle.trans hlt.le), not_le.mp hgt⟩).2

/-- **Chains stay inside.**  If every item that overlaps a member of `members`
is itself a member, no chain leads out of `members`. -/
theorem linked_stays {items members : List ι}
    (hclosed : ∀ a ∈ members, ∀ b ∈ items, Overlap lo hi a b → b ∈ members)
    {a b : ι} (ha : a ∈ members) (h : Linked lo hi items a b) : b ∈ members := by
  induction h with
  | refl => exact ha
  | tail _ hstep ih => exact hclosed _ ih _ hstep.2.1 hstep.2.2

/-- A hull in which an item with a nonempty span overlaps nothing but itself has no
other member. -/
theorem IsHull.length_le_one {members : List ι} {start stop : α}
    (h : IsHull lo hi members start stop) {a : ι} (ha : a ∈ members) (hne : lo a < hi a)
    (hcount : (members.filter fun b => Overlap lo hi a b).length ≤ 1) : members.length ≤ 1 := by
  have hself : Overlap lo hi a a := overlap_iff.mpr ⟨hne, hne, hne, hne⟩
  have honly : ∀ b ∈ members, Overlap lo hi a b → b = a := by
    intro b hb hover
    have hmem : b ∈ members.filter fun b => Overlap lo hi a b :=
      List.mem_filter.mpr ⟨hb, decide_eq_true hover⟩
    have hmem' : a ∈ members.filter fun b => Overlap lo hi a b :=
      List.mem_filter.mpr ⟨ha, decide_eq_true hself⟩
    match hfilter : members.filter fun b => Overlap lo hi a b with
    | [] => simp [hfilter] at hmem
    | [c] =>
        rw [hfilter, List.mem_singleton] at hmem hmem'
        exact hmem.trans hmem'.symm
    | _ :: _ :: _ => simp [hfilter] at hcount
  -- no chain leads away from `a`, so all members are `a` and overlap it
  have hall : ∀ b ∈ members, b = a := by
    intro b hb
    refine List.mem_singleton.mp (@linked_stays _ _ _ _ _ members [a] ?_ _ _ ?_
      (h.linked a ha b hb))
    · intro c hc d hd hover
      obtain rfl := List.mem_singleton.mp hc
      exact List.mem_singleton.mpr (honly d hd hover)
    · exact List.mem_singleton.mpr rfl
  have hfilter : members.filter (fun b => Overlap lo hi a b) = members := by
    rw [List.filter_eq_self]
    intro b hb
    rw [hall b hb]
    exact decide_eq_true hself
  rwa [hfilter] at hcount

/-- **No seams.**  A point strictly inside a hull is strictly inside the span of
one of its members: otherwise the members before it and those after it could not
be linked. -/
theorem IsHull.exists_across {members : List ι} {start stop : α}
    (h : IsHull lo hi members start stop) {x : α} (hx : start < x ∧ x < stop) :
    ∃ m ∈ members, lo m < x ∧ x < hi m := by
  by_contra hno
  have hbefore : ∀ m ∈ members, lo m < x → hi m ≤ x := by
    intro m hm hlt
    by_contra hgt
    exact hno ⟨m, hm, hlt, not_le.mp hgt⟩
  obtain ⟨a, ha, hastart, hahi⟩ := (h.cover start).mp ⟨le_rfl, hx.1.trans hx.2⟩
  obtain ⟨b, hb, hbx⟩ := (h.cover x).mp ⟨hx.1.le, hx.2⟩
  -- everything linked to `a` ends before `x`, so `b` does
  have hstays : b ∈ members.filter fun m => lo m < x := by
    refine @linked_stays _ _ _ _ _ members _ ?_ _ _ ?_ (h.linked a ha b hb)
    · intro c hc d hd hover
      obtain ⟨hcm, hclo⟩ := List.mem_filter.mp hc
      refine List.mem_filter.mpr ⟨hd, decide_eq_true ?_⟩
      exact (overlap_iff.mp hover).2.2.1.trans_le (hbefore c hcm (of_decide_eq_true hclo))
    · exact List.mem_filter.mpr ⟨ha, decide_eq_true (hastart.trans_lt hx.1)⟩
  exact absurd (hbefore b hb (of_decide_eq_true (List.mem_filter.mp hstays).2)) (not_le.mpr hbx.2)

end OverlapChains
