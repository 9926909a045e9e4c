import SortedTable.Interval.Basic
import SortedTable.Proofs.Interval.Cut
import SortedTable.Proofs.Key.Order

/-!
# When an interval holds nothing

`SortedTable.Interval.isEmpty` looks at two endpoints, and the question it is asked is about all
keys. This file compares the two.

Every lower end admits a **first key** (`SortedTable.Endpoint.firstKey`), the order of the keys
being what it is: the key of an inclusive end, the next key after that of an exclusive one, the
empty key if the end is unbounded. An interval holds a key exactly when its upper end admits that
one, so a single comparison decides the question
(`SortedTable.Interval.exists_mem_between_iff`). The endpoints give the same answer in other words.
Over an inclusive lower end they do so by having crossed. Over an exclusive one it takes the gap
above its key as well: up to `k.next` there is one key more than up to `k`.

Over an unbounded lower end the two part. The first key is then the empty one, which the exclusive
upper end at the empty key shuts out, while the endpoints take an unbounded interval for one that
holds something. `SortedTable.Interval.belowLeast` is the interval with those ends. It holds
nothing, it does not count as empty, and it is the only one of the kind
(`SortedTable.Interval.forall_notMem_iff`).
-/

namespace SortedTable

/-- **No cut lies between a key and the next one**: the gap above a key has its two rims and nothing
inside. -/
theorem Cut.after_covBy_before_next (k : Key) : after k ⋖ before k.next := by
  refine covBy_iff_lt_iff_le_left.mpr fun {c} => ?_
  rw [← not_le]
  cases c <;> simp [Key.next_le_iff]

/-! ### The first key above a lower end -/

namespace Endpoint

variable {lower upper : Endpoint Key} {k : Key}

/-- The least of the keys that a lower end admits. -/
def firstKey : Endpoint Key → Key
  | unbounded => .empty
  | inclusive k => k
  | exclusive k => k.next

/-- **A lower end admits its first key and what is above it.** -/
theorem admitsAbove_iff_firstKey_le : lower.admitsAbove k = true ↔ lower.firstKey ≤ k := by
  cases lower with
  | unbounded => exact iff_of_true rfl (Key.empty_le k)
  | inclusive b => exact decide_eq_true_iff
  | exclusive b => exact decide_eq_true_iff.trans Key.next_le_iff.symm

/-- What an upper end admits, it admits together with all that is below. -/
theorem admitsBelow_of_le {j : Key} (hjk : j ≤ k) (hk : upper.admitsBelow k = true) :
    upper.admitsBelow j = true := by
  rw [admitsBelow_iff] at hk ⊢
  exact le_trans (Cut.after_le_after.mpr hjk) hk

/-- Only the exclusive upper end at the empty key shuts out the empty key. -/
theorem admitsBelow_empty_iff : upper.admitsBelow .empty = true ↔ upper ≠ .exclusive .empty := by
  cases upper with
  | unbounded => simp [admitsBelow]
  | inclusive b => simp [admitsBelow, Key.empty_le]
  | exclusive b => simp [admitsBelow, Key.empty_lt_iff]

end Endpoint

namespace Interval

variable {lower upper : Endpoint Key} {k : Key}

/-! ### Holding something -/

/-- **An interval holds something exactly when it holds the first key above its lower end.** -/
theorem exists_mem_between_iff :
    (∃ k, k ∈ between lower upper) ↔ upper.admitsBelow lower.firstKey = true := by
  constructor
  · rintro ⟨k, hk⟩
    obtain ⟨habove, hbelow⟩ := mem_between.mp hk
    exact Endpoint.admitsBelow_of_le (Endpoint.admitsAbove_iff_firstKey_le.mp habove) hbelow
  · intro h
    exact ⟨lower.firstKey, mem_between.mpr ⟨Endpoint.admitsAbove_iff_firstKey_le.mpr le_rfl, h⟩⟩

/-- Whether an interval holds something is decided at that key. -/
instance decidableExistsMem : (I : Interval) → Decidable (∃ k, k ∈ I)
  | empty => isFalse fun ⟨k, hk⟩ => not_mem_empty k hk
  | between lower upper =>
    decidable_of_iff (upper.admitsBelow lower.firstKey = true) exists_mem_between_iff.symm

/-- The endpoints count an interval as empty over crossed ends, and over a gap between two keys. -/
theorem isEmpty_between_iff_cut : (between lower upper).isEmpty = true ↔
    upper.upperCut ≤ lower.lowerCut ∨ ∃ lo, lower = .exclusive lo ∧ upper = .exclusive lo.next := by
  rw [← Endpoint.crossed_iff]
  cases lower <;> cases upper <;> simp [isEmpty, Key.isNext_iff, or_comm]

/-- Over a bounded lower end the endpoints ask about its first key: they have crossed, or they
enclose a gap, exactly when the upper end shuts it out. -/
theorem isEmpty_iff_not_admitsBelow (h : lower ≠ .unbounded) :
    (between lower upper).isEmpty = true ↔ ¬upper.admitsBelow lower.firstKey = true := by
  rw [isEmpty_between_iff_cut, Endpoint.admitsBelow_iff, not_le,
    (Cut.before_covBy_after _).lt_iff_le_left]
  cases lower with
  | unbounded => exact absurd rfl h
  | inclusive lo => simp [Endpoint.lowerCut, Endpoint.firstKey]
  | exclusive lo =>
    -- Crossed ends stop at or below `lo`, and the first key is the one after that.
    have hcover : upper.upperCut < .before lo.next ↔ upper.upperCut ≤ .after lo :=
      (Cut.after_covBy_before_next lo).lt_iff_le_left
    have hgap : (∃ k, Endpoint.exclusive lo = .exclusive k ∧ upper = .exclusive k.next) ↔
        upper.upperCut = .before lo.next := by
      refine Iff.trans ?_ (Endpoint.upperCut_inj (b := .exclusive lo.next)).symm
      simp
    rw [hgap, Endpoint.lowerCut, ← hcover]
    exact le_iff_lt_or_eq.symm

/-- An interval that is unbounded below does not count as empty. -/
theorem isEmpty_between_unbounded : (between .unbounded upper).isEmpty = false := by
  cases upper <;> rfl

/-- **Over a bounded lower end, counting as empty is holding nothing.** -/
theorem isEmpty_between_iff :
    (between lower upper).isEmpty = true ↔
      lower ≠ .unbounded ∧ ∀ k, k ∉ between lower upper := by
  rw [← not_exists, exists_mem_between_iff]
  by_cases h : lower = .unbounded
  · subst h
    simp [isEmpty_between_unbounded]
  · rw [isEmpty_iff_not_admitsBelow h]
    exact (and_iff_right h).symm

/-- **An interval that counts as empty holds no key.** -/
theorem notMem_of_isEmpty {I : Interval} (h : I.isEmpty = true) : k ∉ I := by
  cases I with
  | empty => exact not_mem_empty k
  | between lower upper => exact (isEmpty_between_iff.mp h).2 k

/-! ### The interval below the least key -/

/-- The keys below the empty key, of which there are none. -/
def belowLeast : Interval := between .unbounded (.exclusive .empty)

/-- Without a lower end, an interval holds the empty key unless it stops right below it. -/
theorem forall_notMem_unbounded_iff :
    (∀ k, k ∉ between .unbounded upper) ↔ between .unbounded upper = belowLeast := by
  rw [← not_exists, exists_mem_between_iff, Endpoint.firstKey, Endpoint.admitsBelow_empty_iff,
    not_not, belowLeast, between.injEq]
  exact (and_iff_right rfl).symm

theorem notMem_belowLeast : k ∉ belowLeast := forall_notMem_unbounded_iff.mpr rfl k

theorem isEmpty_belowLeast : belowLeast.isEmpty = false := isEmpty_between_unbounded

/-- An interval holds nothing when it counts as empty, and in one other case. -/
theorem forall_notMem_iff {I : Interval} :
    (∀ k, k ∉ I) ↔ I.isEmpty = true ∨ I = belowLeast := by
  constructor
  · intro h
    cases I with
    | empty => exact Or.inl rfl
    | between lower upper =>
      rcases eq_or_ne lower .unbounded with rfl | hlower
      · exact Or.inr (forall_notMem_unbounded_iff.mp h)
      · exact Or.inl (isEmpty_between_iff.mpr ⟨hlower, h⟩)
  · rintro (h | rfl) k
    · exact notMem_of_isEmpty h
    · exact notMem_belowLeast

/-- **Counting as empty is holding nothing, with one exception.** An interval counts as empty
exactly when no key is in it and it is not the one below the least key; and that one is all there
is for which the two questions have different answers. -/
theorem isEmpty_iff_holds_nothing (I : Interval) :
    (I.isEmpty = true ↔ (∀ k, k ∉ I) ∧ I ≠ belowLeast) ∧
      ((I.isEmpty = true ↔ ∀ k, k ∉ I) ↔ I ≠ belowLeast) := by
  rw [forall_notMem_iff]
  rcases eq_or_ne I belowLeast with rfl | hI
  · simp [isEmpty_belowLeast]
  · simp [hI]

/-- The keys below the least key are none, and yet that interval does not count as empty. -/
theorem not_forall_isEmpty_iff : ¬∀ I : Interval, (I.isEmpty = true ↔ ∀ k, k ∉ I) := by
  intro h
  have hempty : belowLeast.isEmpty = true := (h belowLeast).mpr fun _ => notMem_belowLeast
  exact Bool.false_ne_true (isEmpty_belowLeast.symm.trans hempty)

end Interval

end SortedTable
