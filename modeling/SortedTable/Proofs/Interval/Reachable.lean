import SortedTable.Proofs.Interval.Overlap

/-!
# Intervals made by the constructors

Endpoints can be put together in any way, and one way of doing so gives an interval that holds
nothing and does not count as empty (`SortedTable.Interval.belowLeast`). This file shows that it
takes someone who writes the endpoints down. The constructors and intersection never make it.

What they have in common is an invariant of the two ends. An interval is **anchored** if its lower
end names a key, except where the upper end is unbounded too
(`SortedTable.Interval.Anchored`). Of the constructors only the one for every key leaves the lower
end open, and that one leaves both open. Intersection keeps the invariant: the tighter of two lower
ends is unbounded only if both are, and then there is nothing above to tighten either.

On anchored intervals the endpoints know everything. An interval counts as empty exactly when it
holds nothing (`SortedTable.Interval.Anchored.isEmpty_iff`), so two of them have an empty
intersection exactly when they are disjoint
(`SortedTable.Interval.Reachable.inter_eq_empty_iff`).
-/

namespace SortedTable

namespace Endpoint

variable {α : Type*} [LinearOrder α] {a b : Endpoint α}

/-- The tighter of two lower ends is unbounded only if both are. -/
theorem tighterLower_eq_unbounded_iff :
    a.tighterLower b = .unbounded ↔ a = .unbounded ∧ b = .unbounded := by
  simp only [← lowerCut_eq_bottom_iff, lowerCut_tighterLower, ← Cut.le_bottom, max_le_iff]

end Endpoint

namespace Interval

variable {I J : Interval}

/-! ### The invariant of the ends -/

/-- **An anchored interval** is one that is not unbounded below alone: its lower end names a key,
or its upper end is unbounded as well. -/
def Anchored : Interval → Prop
  | empty => True
  | between lower upper => lower = .unbounded → upper = .unbounded

/-- A lower end that names a key anchors whatever lies above it. -/
theorem anchored_of_ne_unbounded {lower upper : Endpoint Key} (h : lower ≠ .unbounded) :
    (between lower upper).Anchored :=
  fun hlower => absurd hlower h

theorem anchored_startingWith (p : Key) : (startingWith p).Anchored := by
  rw [startingWith]
  cases p.prefixEnd? with
  | none => exact anchored_of_ne_unbounded (by simp)
  | some stop => exact anchored_of_ne_unbounded (by simp)

theorem anchored_ofFlags (left : Key) (leftOpen : Bool) (right : Key) (rightOpen : Bool) :
    (ofFlags left leftOpen right rightOpen).Anchored := by
  by_cases h : (left.isEmpty && right.isEmpty) = true
  · have hall : ofFlags left leftOpen right rightOpen = infinite := if_pos h
    rw [hall]
    exact fun _ => rfl
  · rw [ofFlags.eq_def, if_neg h]
    cases leftOpen <;> cases rightOpen <;> exact anchored_of_ne_unbounded (by simp)

theorem Anchored.overlap (hI : I.Anchored) (hJ : J.Anchored) : (overlap I J).Anchored := by
  rcases I with _ | ⟨lower, upper⟩
  · trivial
  rcases J with _ | ⟨lower', upper'⟩
  · trivial
  intro hlower
  obtain ⟨hl, hl'⟩ := Endpoint.tighterLower_eq_unbounded_iff.mp hlower
  rw [hI hl, hJ hl']
  rfl

theorem Anchored.collapse (h : I.Anchored) : I.collapse.Anchored := by
  by_cases hempty : I.isEmpty = true
  · rw [collapse_of_isEmpty hempty]
    trivial
  · rwa [collapse_of_not_isEmpty hempty]

/-- **Intersection keeps intervals anchored.** -/
theorem Anchored.inter (hI : I.Anchored) (hJ : J.Anchored) : (I ∩ J).Anchored := by
  rw [inter_eq_collapse_overlap]
  exact (hI.overlap hJ).collapse

/-- **The constructors and intersection make anchored intervals only.** -/
theorem Reachable.anchored (h : Reachable I) : I.Anchored := by
  induction h with
  | infinite => exact fun _ => rfl
  | empty => trivial
  | icc lo hi => exact anchored_of_ne_unbounded (by simp)
  | ioo lo hi => exact anchored_of_ne_unbounded (by simp)
  | ioc lo hi => exact anchored_of_ne_unbounded (by simp)
  | ico lo hi => exact anchored_of_ne_unbounded (by simp)
  | startingWith p => exact anchored_startingWith p
  | ofFlags left leftOpen right rightOpen =>
    exact anchored_ofFlags left leftOpen right rightOpen
  | inter _ _ ihI ihJ => exact ihI.inter ihJ

/-! ### What the ends of an anchored interval know -/

/-- The keys below the least key are not an anchored interval: they stop above at a key, and
start at none. -/
theorem Anchored.ne_belowLeast (h : I.Anchored) : I ≠ belowLeast := by
  rintro rfl
  cases h rfl

/-- **An anchored interval counts as empty exactly when it holds nothing.** -/
theorem Anchored.isEmpty_iff (h : I.Anchored) : I.isEmpty = true ↔ ∀ k, k ∉ I := by
  rw [forall_notMem_iff]
  exact (or_iff_left h.ne_belowLeast).symm

/-- **Intersection is a test for disjointness**, as far as the constructors go. -/
theorem Reachable.inter_eq_empty_iff (hI : Reachable I) (hJ : Reachable J) :
    I ∩ J = .empty ↔ ∀ k, ¬(k ∈ I ∧ k ∈ J) := by
  rw [← isEmpty_inter, (hI.inter hJ).anchored.isEmpty_iff]
  simp only [mem_inter]

/-- **The ends of an interval from the constructors tell what it holds.** However deep the
intersections are nested, an interval that is unbounded below is unbounded above too; it counts as
empty exactly when no key is in it; and its intersection with another such interval is `empty`
exactly when the two have no key in common. -/
theorem Reachable.ends_tell_emptiness (hI : Reachable I) (hJ : Reachable J) :
    (∀ upper, I = between .unbounded upper → upper = .unbounded) ∧
      (I.isEmpty = true ↔ ∀ k, k ∉ I) ∧
      (I ∩ J = .empty ↔ ∀ k, ¬(k ∈ I ∧ k ∈ J)) := by
  refine ⟨?_, hI.anchored.isEmpty_iff, hI.inter_eq_empty_iff hJ⟩
  rintro upper rfl
  exact hI.anchored rfl

/-- Two intervals that reach into the same gap from both sides have nothing in common; with the key
right above the gap, one of them has something in common with the other. -/
theorem Reachable.ends_tell_emptiness_gap :
    let a : Key := ⟨[0x61]⟩
    let above : Interval := .infinite ∩ .ioc a ⟨[0x7A]⟩
    let below : Interval := .ofFlags .empty false a.next true ∩ .startingWith .empty
    let upTo : Interval := .icc .empty a.next ∩ .infinite
    above.Reachable ∧ below.Reachable ∧ upTo.Reachable ∧
      above ∩ below = .empty ∧ (∀ k, ¬(k ∈ above ∧ k ∈ below)) ∧
      above ∩ upTo = .ioc a a.next ∧ ¬∀ k, ¬(k ∈ above ∧ k ∈ upTo) := by
  intro a above below upTo
  have habove : above.Reachable := .inter .infinite (.ioc a ⟨[0x7A]⟩)
  have hbelow : below.Reachable :=
    .inter (.ofFlags .empty false a.next true) (.startingWith .empty)
  have hupTo : upTo.Reachable := .inter (.icc .empty a.next) .infinite
  have hgap : above ∩ below = .empty := by decide
  have hroom : above ∩ upTo = .ioc a a.next := by decide
  refine ⟨habove, hbelow, hupTo, hgap, (habove.ends_tell_emptiness hbelow).2.2.mp hgap, hroom, ?_⟩
  refine mt (habove.ends_tell_emptiness hupTo).2.2.mpr ?_
  rw [hroom]
  decide

end Interval

end SortedTable
