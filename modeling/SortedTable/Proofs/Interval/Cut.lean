import Mathlib.Data.Prod.Lex
import Mathlib.Order.Cover
import Mathlib.Order.WithBot
import SortedTable.Interval.Endpoint

/-!
# The order of the cuts

A cut is a place on the line of keys, and the cuts are ordered by their place. The place of a cut
at a key is the key with a flag that says on which side of the key it lies, `false` for before and
`true` for after, read lexicographically; the two remaining cuts are the ends of that line
(`SortedTable.Cut.place`). Over a linear order of keys the cuts therefore form a linear order too,
and `SortedTable.Cut.order` is its comparison.

With it all that an endpoint does is told by its cut.

| for endpoints | for their cuts | theorem |
|---|---|---|
| admits `k` as a lower end | lies before `k` | `SortedTable.Endpoint.admitsAbove_iff` |
| admits `k` as an upper end | lies after `k` | `SortedTable.Endpoint.admitsBelow_iff` |
| the tighter of two lower ends | the greater cut | `SortedTable.Endpoint.lowerCut_tighterLower` |
| the tighter of two upper ends | the smaller cut | `SortedTable.Endpoint.upperCut_tighterUpper` |
| two ends have crossed | no room between the cuts | `SortedTable.Endpoint.crossed_iff` |
-/

universe u

namespace SortedTable

namespace Cut

/-! ### The place of a cut -/

variable {α : Type u}

/-- Where on the line a cut lies: a cut at a key is that key and the side it is on. -/
def place : Cut α → WithBot (WithTop (α ×ₗ Bool))
  | bottom => ⊥
  | before k => ((toLex (k, false) : α ×ₗ Bool) : WithTop (α ×ₗ Bool))
  | after k => ((toLex (k, true) : α ×ₗ Bool) : WithTop (α ×ₗ Bool))
  | top => ((⊤ : WithTop (α ×ₗ Bool)) : WithBot (WithTop (α ×ₗ Bool)))

/-- Different cuts lie at different places. -/
theorem place_injective : Function.Injective (place : Cut α → WithBot (WithTop (α ×ₗ Bool))) := by
  intro c d h
  cases c <;> cases d <;> simp_all [place, -WithBot.coe_top]

variable [LinearOrder α]

/-- Between two cuts at keys the ends of the line do not matter. -/
theorem compare_coe_coe (p q : α ×ₗ Bool) :
    compare ((p : WithTop (α ×ₗ Bool)) : WithBot (WithTop (α ×ₗ Bool)))
      ((q : WithTop (α ×ₗ Bool)) : WithBot (WithTop (α ×ₗ Bool))) = compare p q := by
  refine (compare_iff _ _).mpr ?_
  cases h : compare p q with
  | lt => simpa [Ordering.Compares] using compare_lt_iff_lt.mp h
  | eq => simpa [Ordering.Compares] using compare_eq_iff_eq.mp h
  | gt => simpa [Ordering.Compares] using compare_gt_iff_gt.mp h

/-- **The comparison of two cuts is that of their places.** -/
theorem compare_place (c d : Cut α) : compare c d = compare c.place d.place := by
  -- Cuts at keys are compared as pairs; where an end of the line takes part, it decides.
  cases c <;> cases d
  case before.before x y =>
    rw [place, place, compare_coe_coe]
    exact Ordering.then_eq.symm
  case before.after x y => exact (compare_coe_coe (toLex (x, false)) (toLex (y, true))).symm
  case after.before x y => exact (compare_coe_coe (toLex (x, true)) (toLex (y, false))).symm
  case after.after x y =>
    rw [place, place, compare_coe_coe]
    exact Ordering.then_eq.symm
  all_goals
    refine ((compare_iff _ _).mpr ?_).symm
    simp [compare, order, place, Ordering.Compares, -WithBot.coe_top]

/-- The cuts of a line of keys, in their order along the line. -/
instance : LinearOrder (Cut α) := LinearOrder.liftWithOrd' place place_injective compare_place

/-! ### Reading the order -/

variable {x y : α} {c : Cut α}

theorem le_iff_place {c d : Cut α} : c ≤ d ↔ c.place ≤ d.place := Iff.rfl

@[simp] theorem before_le_before : before x ≤ before y ↔ x ≤ y := by
  rw [le_iff_lt_or_eq (α := α)]
  simp [le_iff_place, place, Prod.Lex.toLex_le_toLex]

@[simp] theorem before_le_after : before x ≤ after y ↔ x ≤ y := by
  rw [le_iff_lt_or_eq (α := α)]
  simp [le_iff_place, place, Prod.Lex.toLex_le_toLex]

@[simp] theorem after_le_before : after x ≤ before y ↔ x < y := by
  simp [le_iff_place, place, Prod.Lex.toLex_le_toLex]

@[simp] theorem after_le_after : after x ≤ after y ↔ x ≤ y := by
  rw [le_iff_lt_or_eq (α := α)]
  simp [le_iff_place, place, Prod.Lex.toLex_le_toLex]

@[simp] theorem bottom_le : bottom ≤ c := by
  simp [le_iff_place, place]

@[simp] theorem le_top : c ≤ top := by
  simp [le_iff_place, place]

@[simp] theorem le_bottom : c ≤ bottom ↔ c = bottom :=
  ⟨fun h => le_antisymm h bottom_le, fun h => h.le⟩

@[simp] theorem top_le : top ≤ c ↔ c = top :=
  ⟨fun h => le_antisymm le_top h, fun h => h.ge⟩

/-- **No cut lies between the two at one key.** -/
theorem before_covBy_after (x : α) : before x ⋖ after x := by
  refine covBy_iff_lt_iff_le_left.mpr fun {c} => ?_
  rw [← not_le]
  cases c <;> simp

end Cut

namespace Endpoint

variable {α : Type u} [LinearOrder α] {a b : Endpoint α} {k : α}

/-! ### Endpoints by their cuts -/

/-- **A lower end admits the keys above its cut.** -/
theorem admitsAbove_iff : a.admitsAbove k = true ↔ a.lowerCut ≤ .before k := by
  cases a <;> simp [admitsAbove, lowerCut]

/-- **An upper end admits the keys below its cut.** -/
theorem admitsBelow_iff : a.admitsBelow k = true ↔ .after k ≤ a.upperCut := by
  cases a <;> simp [admitsBelow, upperCut]

theorem compareLower_eq_lt : compareLower a b = .lt ↔ a.lowerCut < b.lowerCut :=
  compare_lt_iff_lt

theorem compareUpper_eq_gt : compareUpper a b = .gt ↔ b.upperCut < a.upperCut :=
  compare_gt_iff_gt

/-- The tighter of two lower ends cuts where the upper one of them does. -/
theorem lowerCut_tighterLower : (a.tighterLower b).lowerCut = max a.lowerCut b.lowerCut := by
  by_cases h : a.lowerCut < b.lowerCut
  · rw [tighterLower, if_pos (compareLower_eq_lt.mpr h), max_eq_right h.le]
  · rw [tighterLower, if_neg (mt compareLower_eq_lt.mp h), max_eq_left (not_lt.mp h)]

/-- The tighter of two upper ends cuts where the lower one of them does. -/
theorem upperCut_tighterUpper : (a.tighterUpper b).upperCut = min a.upperCut b.upperCut := by
  by_cases h : b.upperCut < a.upperCut
  · rw [tighterUpper, if_pos (compareUpper_eq_gt.mpr h), min_eq_right h.le]
  · rw [tighterUpper, if_neg (mt compareUpper_eq_gt.mp h), min_eq_left (not_lt.mp h)]

/-- The tighter of two lower ends is one of them. -/
theorem tighterLower_eq_or : a.tighterLower b = a ∨ a.tighterLower b = b := by
  rw [tighterLower]
  exact (ite_eq_or_eq _ b a).symm

/-- The tighter of two upper ends is one of them. -/
theorem tighterUpper_eq_or : a.tighterUpper b = a ∨ a.tighterUpper b = b := by
  rw [tighterUpper]
  exact (ite_eq_or_eq _ b a).symm

/-- **Ends have crossed where the cut above is not above the cut below.** -/
theorem crossed_iff : a.crossed b = true ↔ b.upperCut ≤ a.lowerCut := by
  cases a <;> cases b <;> simp [crossed, lowerCut, upperCut]

omit [LinearOrder α] in
/-- Only an unbounded lower end cuts below every key. -/
theorem lowerCut_eq_bottom_iff : a.lowerCut = .bottom ↔ a = .unbounded :=
  lowerCut_inj (b := .unbounded)

end Endpoint

end SortedTable
