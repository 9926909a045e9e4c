import SortedTable.Proofs.Interval.Emptiness

/-!
# When an interval holds everything

`SortedTable.Interval.isInfinite` looks for two unbounded ends, and the question it is asked is
about all keys. This file compares the two, side by side for the two ends of an interval.

At the upper end they agree. There is no greatest key, so an end that names a key shuts out some
key, be it the key itself or the next one after it (`SortedTable.Endpoint.forall_admitsBelow_iff`).

At the lower end they do not, for there is a least key. An end that takes in the empty key shuts
out nothing, and it is written differently from the unbounded end
(`SortedTable.Endpoint.forall_admitsAbove_iff`). So the whole line of keys can be written in two
ways. `SortedTable.Interval.fromLeast` is the second one, which holds everything and does not count
as infinite; there is no other of the kind (`SortedTable.Interval.forall_mem_iff`). Nobody has to
write endpoints down to come upon it, as it is what the keys that begin with nothing are.
-/

namespace SortedTable

/-! ### Ends that shut nothing out -/

namespace Endpoint

variable {lower upper : Endpoint Key}

/-- A lower end that admits the empty key admits every key. -/
theorem admitsAbove_of_admitsAbove_empty (h : lower.admitsAbove .empty = true) (k : Key) :
    lower.admitsAbove k = true :=
  admitsAbove_iff_firstKey_le.mpr (le_trans (admitsAbove_iff_firstKey_le.mp h) (Key.empty_le k))

/-- **Two lower ends shut nothing out**: the unbounded one, and the one that takes the empty key
in. -/
theorem forall_admitsAbove_iff :
    (∀ k, lower.admitsAbove k = true) ↔ lower = .unbounded ∨ lower = .inclusive .empty := by
  have hempty : (∀ k, lower.admitsAbove k = true) ↔ lower.admitsAbove .empty = true :=
    ⟨fun h => h .empty, admitsAbove_of_admitsAbove_empty⟩
  rw [hempty, admitsAbove_iff_firstKey_le]
  cases lower with
  | unbounded => simp [firstKey]
  | inclusive b => simp [firstKey, ← not_lt, Key.empty_lt_iff]
  | exclusive b => simp [firstKey, Key.next_le_iff, ← not_le, Key.empty_le]

/-- **Only the unbounded upper end shuts nothing out**, since above every key there is another. -/
theorem forall_admitsBelow_iff : (∀ k, upper.admitsBelow k = true) ↔ upper = .unbounded := by
  constructor
  · intro h
    cases upper with
    | unbounded => rfl
    | inclusive b => exact absurd (of_decide_eq_true (h b.next)) (not_le.mpr b.lt_next)
    | exclusive b => exact absurd (of_decide_eq_true (h b)) (lt_irrefl b)
  · rintro rfl k
    rfl

end Endpoint

namespace Interval

variable {I : Interval} {lower upper : Endpoint Key}

/-! ### The line of keys, written in two ways -/

/-- Every key from the least one on: the whole line, with its first key as the lower end. -/
def fromLeast : Interval := between (.inclusive .empty) .unbounded

/-- It is what the keys that begin with nothing are. -/
theorem startingWith_empty : startingWith .empty = fromLeast := rfl

theorem isInfinite_fromLeast : fromLeast.isInfinite = false := rfl

theorem isInfinite_between_iff :
    (between lower upper).isInfinite = true ↔ lower = .unbounded ∧ upper = .unbounded := by
  cases lower <;> cases upper <;> simp [isInfinite]

/-- An interval holds everything when neither of its ends shuts anything out. -/
theorem forall_mem_between_iff :
    (∀ k, k ∈ between lower upper) ↔
      (lower = .unbounded ∨ lower = .inclusive .empty) ∧ upper = .unbounded := by
  simp only [mem_between, forall_and, Endpoint.forall_admitsAbove_iff,
    Endpoint.forall_admitsBelow_iff]

/-- An interval holds everything when it counts as infinite, and in one other case. -/
theorem forall_mem_iff : (∀ k, k ∈ I) ↔ I.isInfinite = true ∨ I = fromLeast := by
  cases I with
  | empty =>
    refine iff_of_false (fun h => not_mem_empty .empty (h .empty)) ?_
    simp [isInfinite, fromLeast]
  | between lower upper =>
    rw [forall_mem_between_iff, isInfinite_between_iff, fromLeast, between.injEq, or_and_right]

theorem mem_fromLeast (k : Key) : k ∈ fromLeast := forall_mem_iff.mpr (Or.inr rfl) k

/-- **Counting as infinite is holding everything, with one exception.** An interval counts as
infinite exactly when every key is in it and it is not the one from the least key on; and that one
is all there is for which the two questions have different answers. -/
theorem isInfinite_iff_holds_everything (I : Interval) :
    (I.isInfinite = true ↔ (∀ k, k ∈ I) ∧ I ≠ fromLeast) ∧
      ((I.isInfinite = true ↔ ∀ k, k ∈ I) ↔ I ≠ fromLeast) := by
  rw [forall_mem_iff]
  rcases eq_or_ne I fromLeast with rfl | hI
  · simp [isInfinite_fromLeast]
  · simp [hI]

/-- Every key begins with nothing, and yet that interval does not count as infinite. -/
theorem not_forall_isInfinite_iff : ¬∀ I : Interval, (I.isInfinite = true ↔ ∀ k, k ∈ I) := by
  intro h
  have hall : ∀ k, k ∈ startingWith .empty := by
    rw [startingWith_empty]
    exact mem_fromLeast
  have hinfinite : (startingWith .empty).isInfinite = true := (h _).mpr hall
  rw [startingWith_empty, isInfinite_fromLeast] at hinfinite
  exact Bool.false_ne_true hinfinite

end Interval

end SortedTable
