import Mathlib.Order.MinMax
import SortedTable.Interval.Intersection
import SortedTable.Proofs.Interval.Emptiness

/-!
# Intersecting many intervals

The intersection of two intervals is found in two steps: take the tighter ends, then forget them if
what they enclose counts as empty. The first step alone is `SortedTable.Interval.overlap`, the
second is `SortedTable.Interval.collapse`. Taken over a list of intervals the steps alternate, and
the trouble is with the second: once the ends are forgotten they cannot be compared any more, so it
is not plain that it does not matter when they are.

It does not, because ends that enclose nothing still enclose nothing when they are tightened
(`SortedTable.Interval.isEmpty_overlap`). So all collapsing can wait until the end of the list
(`SortedTable.Interval.interAll_cons_eq_collapse`), and what is left is the run of overlaps. That
run only looks for the tightest ends among its members, `SortedTable.Interval.TightestEnds`. Where
there are such ends they are the only ones, cuts being linearly ordered, and to have them is a
property of the set of the members: neither their order nor how often they come plays a part.

Commutativity and associativity of `∩` are read off from lists with two and three members.
-/

namespace SortedTable

namespace Interval

variable {I J : Interval} {lower upper : Endpoint Key} {k : Key}

/-! ### The two steps of an intersection -/

/-- **The stretch between the tighter ends of two intervals**, with or without room for a key. -/
def overlap : Interval → Interval → Interval
  | between lower upper, between lower' upper' =>
    between (lower.tighterLower lower') (upper.tighterUpper upper')
  | _, _ => empty

/-- Forgets the ends of an interval that counts as empty. -/
def collapse (I : Interval) : Interval := if I.isEmpty then empty else I

theorem collapse_of_isEmpty (h : I.isEmpty = true) : I.collapse = empty := if_pos h

theorem collapse_of_not_isEmpty (h : ¬I.isEmpty = true) : I.collapse = I := if_neg h

/-- The intervals that collapse are those that count as empty. -/
theorem collapse_eq_empty_iff : I.collapse = empty ↔ I.isEmpty = true := by
  by_cases h : I.isEmpty = true
  · exact iff_of_true (collapse_of_isEmpty h) h
  · rw [collapse_of_not_isEmpty h]
    refine iff_of_false (fun hI => h ?_) h
    rw [hI]
    rfl

/-- What is left after collapsing counts as empty only if nothing is left. -/
theorem isEmpty_collapse : I.collapse.isEmpty = true ↔ I.collapse = empty := by
  rw [collapse_eq_empty_iff]
  by_cases h : I.isEmpty = true
  · rw [collapse_of_isEmpty h]
    exact iff_of_true rfl h
  · rw [collapse_of_not_isEmpty h]

/-- Nothing else changes. -/
theorem collapse_eq_between_iff : I.collapse = between lower upper ↔
    I = between lower upper ∧ ¬(between lower upper).isEmpty = true := by
  by_cases h : I.isEmpty = true
  · rw [collapse_of_isEmpty h]
    refine iff_of_false (by simp) fun hI => hI.2 ?_
    rw [← hI.1]
    exact h
  · rw [collapse_of_not_isEmpty h]
    exact ⟨fun hI => ⟨hI, hI ▸ h⟩, fun hI => hI.1⟩

theorem mem_collapse : k ∈ I.collapse ↔ k ∈ I := by
  by_cases h : I.isEmpty = true
  · rw [collapse_of_isEmpty h]
    exact iff_of_false (not_mem_empty k) (notMem_of_isEmpty h)
  · rw [collapse_of_not_isEmpty h]

/-- **An intersection is an overlap that is collapsed.** -/
theorem inter_eq_collapse_overlap (I J : Interval) : I ∩ J = (overlap I J).collapse := by
  cases I <;> cases J <;> rfl

/-- A key is in an interval when the lower cut is before it and the upper cut after it. -/
theorem mem_between_iff_cut :
    k ∈ between lower upper ↔ lower.lowerCut ≤ .before k ∧ .after k ≤ upper.upperCut := by
  rw [mem_between, Endpoint.admitsAbove_iff, Endpoint.admitsBelow_iff]

/-- The overlap holds the keys that both intervals hold. -/
theorem mem_overlap : k ∈ overlap I J ↔ k ∈ I ∧ k ∈ J := by
  cases I with
  | empty => exact iff_of_false (not_mem_empty k) fun h => not_mem_empty k h.1
  | between lower upper =>
    cases J with
    | empty => exact iff_of_false (not_mem_empty k) fun h => not_mem_empty k h.2
    | between lower' upper' =>
      rw [overlap]
      simp only [mem_between_iff_cut, Endpoint.lowerCut_tighterLower,
        Endpoint.upperCut_tighterUpper, max_le_iff, le_min_iff]
      exact and_and_and_comm

/-- **The intersection holds the keys that both intervals hold.** -/
theorem mem_inter : k ∈ I ∩ J ↔ k ∈ I ∧ k ∈ J := by
  rw [inter_eq_collapse_overlap, mem_collapse, mem_overlap]

/-- An intersection that counts as empty has forgotten its ends. -/
theorem isEmpty_inter : (I ∩ J).isEmpty = true ↔ I ∩ J = empty := by
  rw [inter_eq_collapse_overlap]
  exact isEmpty_collapse

/-- **Tightening keeps an interval empty.** A bounded lower end stays bounded, and no key comes
in. -/
theorem isEmpty_overlap (h : I.isEmpty = true) : (overlap I J).isEmpty = true := by
  cases I with
  | empty => rfl
  | between lower upper =>
    cases J with
    | empty => rfl
    | between lower' upper' =>
      obtain ⟨hlower, hnone⟩ := isEmpty_between_iff.mp h
      refine isEmpty_between_iff.mpr ⟨fun hbottom => hlower ?_, fun k hk => ?_⟩
      · rw [← Endpoint.lowerCut_eq_bottom_iff, Endpoint.lowerCut_tighterLower] at hbottom
        have hle : lower.lowerCut ≤ .bottom := hbottom ▸ le_max_left _ _
        exact Endpoint.lowerCut_eq_bottom_iff.mp (Cut.le_bottom.mp hle)
      · change k ∈ overlap (between lower upper) (between lower' upper') at hk
        exact hnone k (mem_overlap.mp hk).1

/-! ### A run of overlaps -/

/-- The overlaps of the intervals of a non-empty list, taken from left to right. -/
def overlapAll (first : Interval) (rest : List Interval) : Interval := rest.foldl overlap first

theorem overlapAll_cons (I J : Interval) (rest : List Interval) :
    overlapAll I (J :: rest) = overlapAll (overlap I J) rest := rfl

/-- A run that has become empty stays empty. -/
theorem isEmpty_overlapAll {rest : List Interval} (h : I.isEmpty = true) :
    (overlapAll I rest).isEmpty = true := by
  induction rest generalizing I with
  | nil => exact h
  | cons J rest ih => exact ih (isEmpty_overlap h)

/-- Collapsing before a run makes no difference if the run is collapsed too. -/
theorem collapse_overlapAll_collapse (I : Interval) (rest : List Interval) :
    (overlapAll I.collapse rest).collapse = (overlapAll I rest).collapse := by
  by_cases h : I.isEmpty = true
  · have hrun : (overlapAll I rest).isEmpty = true := isEmpty_overlapAll h
    have hcollapsed : (overlapAll I.collapse rest).isEmpty = true :=
      isEmpty_overlapAll (isEmpty_collapse.mpr (collapse_of_isEmpty h))
    rw [collapse_of_isEmpty hrun, collapse_of_isEmpty hcollapsed]
  · rw [collapse_of_not_isEmpty h]

/-- **All collapsing can wait until the end.** -/
theorem interAll_cons_eq_collapse (I J : Interval) (rest : List Interval) :
    interAll I (J :: rest) = (overlapAll I (J :: rest)).collapse := by
  -- On the list, for any start: `I ∩ J` takes the place of the first two members.
  induction rest generalizing I J with
  | nil => exact inter_eq_collapse_overlap I J
  | cons K rest ih =>
    calc interAll I (J :: K :: rest)
      _ = (overlapAll (I ∩ J) (K :: rest)).collapse := ih (I ∩ J) K
      _ = (overlapAll (overlap I J).collapse (K :: rest)).collapse := by
        rw [inter_eq_collapse_overlap]
      _ = (overlapAll I (J :: K :: rest)).collapse := collapse_overlapAll_collapse _ _

/-! ### The tightest ends -/

/-- **The tightest ends among some intervals**: each of the two is an end of one of them, and no
interval among them has a tighter one on that side. -/
structure TightestEnds (Is : List Interval) (lower upper : Endpoint Key) : Prop where
  /-- Some interval has the lower end. -/
  lower_mem : ∃ u, between lower u ∈ Is
  /-- Some interval has the upper end. -/
  upper_mem : ∃ l, between l upper ∈ Is
  /-- No lower end is tighter. -/
  compareLower_ne_gt : ∀ l u, between l u ∈ Is → l.compareLower lower ≠ .gt
  /-- No upper end is tighter. -/
  compareUpper_ne_gt : ∀ l u, between l u ∈ Is → upper.compareUpper u ≠ .gt

namespace TightestEnds

variable {Is Js : List Interval} {lower' upper' : Endpoint Key}

theorem lowerCut_le (h : TightestEnds Is lower upper) {l u : Endpoint Key}
    (hmem : between l u ∈ Is) : l.lowerCut ≤ lower.lowerCut :=
  compare_le_iff_le.mp (h.compareLower_ne_gt l u hmem)

theorem le_upperCut (h : TightestEnds Is lower upper) {l u : Endpoint Key}
    (hmem : between l u ∈ Is) : upper.upperCut ≤ u.upperCut :=
  compare_le_iff_le.mp (h.compareUpper_ne_gt l u hmem)

/-- **There is at most one pair of tightest ends.** -/
theorem unique (h : TightestEnds Is lower upper) (h' : TightestEnds Is lower' upper') :
    lower = lower' ∧ upper = upper' := by
  obtain ⟨u, hu⟩ := h.lower_mem
  obtain ⟨u', hu'⟩ := h'.lower_mem
  obtain ⟨l, hl⟩ := h.upper_mem
  obtain ⟨l', hl'⟩ := h'.upper_mem
  exact ⟨Endpoint.lowerCut_inj.mp (le_antisymm (h'.lowerCut_le hu) (h.lowerCut_le hu')),
    Endpoint.upperCut_inj.mp (le_antisymm (h.le_upperCut hl') (h'.le_upperCut hl))⟩

/-- Only the set of the intervals matters. -/
theorem of_mem_iff (hmem : ∀ K, K ∈ Is ↔ K ∈ Js) (h : TightestEnds Is lower upper) :
    TightestEnds Js lower upper where
  lower_mem := h.lower_mem.imp fun _ hK => (hmem _).mp hK
  upper_mem := h.upper_mem.imp fun _ hK => (hmem _).mp hK
  compareLower_ne_gt l u hK := h.compareLower_ne_gt l u ((hmem _).mpr hK)
  compareUpper_ne_gt l u hK := h.compareUpper_ne_gt l u ((hmem _).mpr hK)

/-- One interval alone has the tightest ends. -/
theorem singleton (lower upper : Endpoint Key) :
    TightestEnds [between lower upper] lower upper where
  lower_mem := ⟨upper, List.mem_singleton_self _⟩
  upper_mem := ⟨lower, List.mem_singleton_self _⟩
  compareLower_ne_gt l u hmem := by
    obtain ⟨rfl, rfl⟩ := between.inj (List.mem_singleton.mp hmem)
    exact compare_le_iff_le.mpr le_rfl
  compareUpper_ne_gt l u hmem := by
    obtain ⟨rfl, rfl⟩ := between.inj (List.mem_singleton.mp hmem)
    exact compare_le_iff_le.mpr le_rfl

variable {l u l' u' : Endpoint Key} {rest : List Interval}

/-- What is tighter than the lower end of an overlap is tighter than both lower ends. -/
theorem lowerCut_le_of_overlap
    (h : TightestEnds (overlap (between l u) (between l' u') :: rest) lower upper) :
    l.lowerCut ≤ lower.lowerCut ∧ l'.lowerCut ≤ lower.lowerCut := by
  have hmax : (l.tighterLower l').lowerCut ≤ lower.lowerCut := h.lowerCut_le List.mem_cons_self
  rw [Endpoint.lowerCut_tighterLower] at hmax
  exact max_le_iff.mp hmax

/-- What is tighter than the upper end of an overlap is tighter than both upper ends. -/
theorem le_upperCut_of_overlap
    (h : TightestEnds (overlap (between l u) (between l' u') :: rest) lower upper) :
    upper.upperCut ≤ u.upperCut ∧ upper.upperCut ≤ u'.upperCut := by
  have hmin : upper.upperCut ≤ (u.tighterUpper u').upperCut := h.le_upperCut List.mem_cons_self
  rw [Endpoint.upperCut_tighterUpper] at hmin
  exact le_min_iff.mp hmin

/-- **Two intervals may stand in place of their overlap.** The ends of the overlap are ends of
the two, and tighter than those it left. -/
theorem of_overlap
    (h : TightestEnds (overlap (between l u) (between l' u') :: rest) lower upper) :
    TightestEnds (between l u :: between l' u' :: rest) lower upper := by
  have hfirst : between l u ∈ between l u :: between l' u' :: rest := List.mem_cons_self
  have hsecond : between l' u' ∈ between l u :: between l' u' :: rest :=
    List.mem_cons_of_mem _ List.mem_cons_self
  have hrest : ∀ K ∈ rest, K ∈ between l u :: between l' u' :: rest := fun K hK =>
    List.mem_cons_of_mem _ (List.mem_cons_of_mem _ hK)
  obtain ⟨hl, hl'⟩ := h.lowerCut_le_of_overlap
  obtain ⟨hu, hu'⟩ := h.le_upperCut_of_overlap
  refine ⟨?_, ?_, fun a b hmem => ?_, fun a b hmem => ?_⟩
  · obtain ⟨w, hw⟩ := h.lower_mem
    rcases List.mem_cons.mp hw with heq | hw
    · obtain ⟨rfl, -⟩ := between.inj heq
      rcases Endpoint.tighterLower_eq_or (a := l) (b := l') with hlower | hlower
      · exact ⟨u, by rw [hlower]; exact hfirst⟩
      · exact ⟨u', by rw [hlower]; exact hsecond⟩
    · exact ⟨w, hrest _ hw⟩
  · obtain ⟨w, hw⟩ := h.upper_mem
    rcases List.mem_cons.mp hw with heq | hw
    · obtain ⟨-, rfl⟩ := between.inj heq
      rcases Endpoint.tighterUpper_eq_or (a := u) (b := u') with hupper | hupper
      · exact ⟨l, by rw [hupper]; exact hfirst⟩
      · exact ⟨l', by rw [hupper]; exact hsecond⟩
    · exact ⟨w, hrest _ hw⟩
  · simp only [List.mem_cons, between.injEq] at hmem
    rcases hmem with ⟨rfl, -⟩ | ⟨rfl, -⟩ | hmem
    · exact compare_le_iff_le.mpr hl
    · exact compare_le_iff_le.mpr hl'
    · exact h.compareLower_ne_gt a b (List.mem_cons_of_mem _ hmem)
  · simp only [List.mem_cons, between.injEq] at hmem
    rcases hmem with ⟨-, rfl⟩ | ⟨-, rfl⟩ | hmem
    · exact compare_le_iff_le.mpr hu
    · exact compare_le_iff_le.mpr hu'
    · exact h.compareUpper_ne_gt a b (List.mem_cons_of_mem _ hmem)

end TightestEnds

/-! ### What a run of overlaps finds -/

/-- A run of overlaps comes out empty only over an empty member. -/
theorem overlapAll_eq_empty_iff {rest : List Interval} :
    overlapAll I rest = empty ↔ empty ∈ I :: rest := by
  induction rest generalizing I with
  | nil => exact eq_comm.trans List.mem_singleton.symm
  | cons J rest ih =>
    rw [overlapAll_cons, ih]
    cases I <;> cases J <;> simp [overlap]

/-- **A run of overlaps finds the tightest ends.** -/
theorem tightestEnds_overlapAll {rest : List Interval}
    (h : overlapAll I rest = between lower upper) : TightestEnds (I :: rest) lower upper := by
  -- On the list, for any start: the first two members make way for their overlap.
  induction rest generalizing I with
  | nil =>
    obtain rfl : I = between lower upper := h
    exact TightestEnds.singleton lower upper
  | cons J rest ih =>
    have hnone : empty ∉ I :: J :: rest := fun hmem => by
      rw [overlapAll_eq_empty_iff.mpr hmem] at h
      cases h
    cases I with
    | empty => exact absurd List.mem_cons_self hnone
    | between l u =>
      cases J with
      | empty => exact absurd (List.mem_cons_of_mem _ List.mem_cons_self) hnone
      | between l' u' => exact (ih h).of_overlap

/-- A run of overlaps is either empty or what the tightest ends enclose. -/
theorem overlapAll_eq_between_iff {rest : List Interval} :
    overlapAll I rest = between lower upper ↔
      empty ∉ I :: rest ∧ TightestEnds (I :: rest) lower upper := by
  constructor
  · intro h
    refine ⟨fun hmem => ?_, tightestEnds_overlapAll h⟩
    rw [overlapAll_eq_empty_iff.mpr hmem] at h
    cases h
  · rintro ⟨hnone, hends⟩
    cases h : overlapAll I rest with
    | empty => exact absurd (overlapAll_eq_empty_iff.mp h) hnone
    | between lower' upper' =>
      obtain ⟨rfl, rfl⟩ := hends.unique (tightestEnds_overlapAll h)
      rfl

/-- A run of overlaps depends on the set of its members only. -/
theorem overlapAll_eq_of_mem_iff {I' : Interval} {rest rest' : List Interval}
    (hmem : ∀ K, K ∈ I :: rest ↔ K ∈ I' :: rest') : overlapAll I rest = overlapAll I' rest' := by
  cases h : overlapAll I' rest' with
  | empty => exact overlapAll_eq_empty_iff.mpr ((hmem empty).mpr (overlapAll_eq_empty_iff.mp h))
  | between lower upper =>
    obtain ⟨hnone, hends⟩ := overlapAll_eq_between_iff.mp h
    exact overlapAll_eq_between_iff.mpr
      ⟨mt (hmem empty).mp hnone, hends.of_mem_iff fun K => (hmem K).symm⟩

/-! ### Intersections -/

/-- **An intersection of two or more intervals depends on the set of its members only.** -/
theorem interAll_eq_of_mem_iff {I' J' : Interval} {rest rest' : List Interval}
    (hmem : ∀ K, K ∈ I :: J :: rest ↔ K ∈ I' :: J' :: rest') :
    interAll I (J :: rest) = interAll I' (J' :: rest') := by
  rw [interAll_cons_eq_collapse, interAll_cons_eq_collapse, overlapAll_eq_of_mem_iff hmem]

theorem inter_comm (I J : Interval) : I ∩ J = J ∩ I := by
  have hmem : ∀ K, K ∈ [I, J] ↔ K ∈ [J, I] := fun K => by simp [or_comm]
  exact interAll_eq_of_mem_iff hmem

theorem inter_assoc (I J K : Interval) : I ∩ J ∩ K = I ∩ (J ∩ K) := by
  have hmem : ∀ L, L ∈ [I, J, K] ↔ L ∈ [J, K, I] := fun L => by
    simp [or_comm, or_left_comm]
  calc I ∩ J ∩ K
    _ = J ∩ K ∩ I := interAll_eq_of_mem_iff hmem
    _ = I ∩ (J ∩ K) := inter_comm (J ∩ K) I

/-- Intersecting with one interval twice is intersecting with it once. -/
theorem inter_inter_self (I J : Interval) : I ∩ J ∩ J = I ∩ J := by
  have hmem : ∀ K, K ∈ [I, J, J] ↔ K ∈ [I, J] := fun K => by simp
  exact interAll_eq_of_mem_iff hmem

theorem mem_infinite (k : Key) : k ∈ infinite := rfl

/-- Ends that are not tighter than those of an interval take nothing from it. -/
theorem overlap_eq_left {lower' upper' : Endpoint Key} (hlower : lower'.lowerCut ≤ lower.lowerCut)
    (hupper : upper.upperCut ≤ upper'.upperCut) :
    overlap (between lower upper) (between lower' upper') = between lower upper := by
  have hl : lower.tighterLower lower' = lower := by
    rw [← Endpoint.lowerCut_inj, Endpoint.lowerCut_tighterLower]
    exact max_eq_left hlower
  have hu : upper.tighterUpper upper' = upper := by
    rw [← Endpoint.upperCut_inj, Endpoint.upperCut_tighterUpper]
    exact min_eq_left hupper
  rw [overlap, hl, hu]

/-- Unbounded ends tighten nothing. -/
theorem overlap_infinite (I : Interval) : overlap I infinite = I := by
  rcases I with _ | ⟨lower, upper⟩
  · rfl
  · exact overlap_eq_left Cut.bottom_le Cut.le_top

/-- Against every key an interval only collapses. -/
theorem inter_infinite (I : Interval) : I ∩ infinite = I.collapse := by
  rw [inter_eq_collapse_overlap, overlap_infinite]

/-- An intersection is empty if a member is, or if the tightest ends count as empty. -/
theorem interAll_eq_empty_iff {rest : List Interval} :
    interAll I (J :: rest) = empty ↔ empty ∈ I :: J :: rest ∨
      ∃ lower upper, TightestEnds (I :: J :: rest) lower upper ∧
        (between lower upper).isEmpty = true := by
  rw [interAll_cons_eq_collapse, collapse_eq_empty_iff]
  cases h : overlapAll I (J :: rest) with
  | empty => exact iff_of_true rfl (Or.inl (overlapAll_eq_empty_iff.mp h))
  | between lower upper =>
    obtain ⟨hnone, hends⟩ := overlapAll_eq_between_iff.mp h
    constructor
    · exact fun hempty => Or.inr ⟨lower, upper, hends, hempty⟩
    · rintro (hmem | ⟨lower', upper', hends', hempty⟩)
      · exact absurd hmem hnone
      · -- The ends that count as empty are those the run has found.
        obtain ⟨rfl, rfl⟩ := hends.unique hends'
        exact hempty

/-- Any other intersection is what the tightest ends enclose. -/
theorem interAll_eq_between_iff {rest : List Interval} :
    interAll I (J :: rest) = between lower upper ↔ empty ∉ I :: J :: rest ∧
      TightestEnds (I :: J :: rest) lower upper ∧ ¬(between lower upper).isEmpty = true := by
  rw [interAll_cons_eq_collapse, collapse_eq_between_iff, overlapAll_eq_between_iff, and_assoc]

/-- **What the intersection of two or more intervals depends on.** Lists with the same members
have the same intersection, written with the same endpoints; so `∩` is commutative and associative.
The intersection is empty exactly when a member is or when the tightest ends of the members count
as empty, and otherwise it has exactly those ends. -/
theorem interAll_depends_on_members :
    (∀ (I J : Interval) (rest : List Interval) (I' J' : Interval) (rest' : List Interval),
        (∀ K, K ∈ I :: J :: rest ↔ K ∈ I' :: J' :: rest') →
          interAll I (J :: rest) = interAll I' (J' :: rest')) ∧
      (∀ I J : Interval, I ∩ J = J ∩ I) ∧
      (∀ I J K : Interval, I ∩ J ∩ K = I ∩ (J ∩ K)) ∧
      (∀ (I J : Interval) (rest : List Interval),
        interAll I (J :: rest) = empty ↔ empty ∈ I :: J :: rest ∨
          ∃ lower upper, TightestEnds (I :: J :: rest) lower upper ∧
            (between lower upper).isEmpty = true) ∧
      ∀ (I J : Interval) (rest : List Interval) (lower upper : Endpoint Key),
        interAll I (J :: rest) = between lower upper ↔ empty ∉ I :: J :: rest ∧
          TightestEnds (I :: J :: rest) lower upper ∧ ¬(between lower upper).isEmpty = true :=
  ⟨fun _ _ _ _ _ _ hmem => interAll_eq_of_mem_iff hmem, inter_comm, inter_assoc,
    fun _ _ _ => interAll_eq_empty_iff, fun _ _ _ _ _ => interAll_eq_between_iff⟩

/-- Three intervals of which two enclose a gap between them. In the first order the gap is closed
by the last step, in the second one by the first. -/
theorem interAll_gap_shuffled :
    let a : Key := ⟨[0x61]⟩
    let closed : Interval := icc a ⟨[0x7A]⟩
    let above : Interval := between (.exclusive a) .unbounded
    let below : Interval := between .unbounded (.exclusive a.next)
    (∀ K, K ∈ [closed, above, below] ↔ K ∈ [above, below, closed, below]) ∧
      interAll closed [above, below] = interAll above [below, closed, below] ∧
      interAll closed [above] ≠ empty ∧ interAll above [below] = empty := by
  intro a closed above below
  have hmem : ∀ K, K ∈ [closed, above, below] ↔ K ∈ [above, below, closed, below] := fun K => by
    simp only [List.mem_cons, List.not_mem_nil, or_false]
    grind
  exact ⟨hmem, interAll_depends_on_members.1 _ _ _ _ _ _ hmem, by decide, by decide⟩

end Interval

end SortedTable
