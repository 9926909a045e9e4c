import Mathlib.Order.Basic
import SortedTable.Key.Basic

/-!
# The linear order of the keys

The keys of a table as a linear order, with the comparison and the maximum that
`SortedTable.Key.Basic` defines, so that the general facts on linear orders apply to them.

The order has two features that a reader of intervals has to keep in mind. It starts at the empty
key (`SortedTable.Key.empty_le`), and it is not dense, every key `k` having the key `k.next` right
above it (`SortedTable.Key.next_le_iff`).
-/

namespace SortedTable

namespace Key

instance : LinearOrder Key where
  le_refl a := Key.not_lt.mp (Key.lt_irrefl a)
  le_trans _ _ _ hab hbc := List.le_trans hab hbc
  le_antisymm _ _ hab hba := Key.le_antisymm hab hba
  le_total a b := List.le_total a.bytes b.bytes
  lt_iff_le_not_ge a b := by
    rw [← Key.not_lt, ← Key.not_lt, not_not]
    exact ⟨fun h => ⟨fun h' => Key.lt_irrefl a (Key.lt_trans h h'), h⟩, fun h => h.2⟩
  toDecidableLE := Key.decidableLE
  toDecidableLT := Key.decidableLT
  max_def _ _ := rfl
  compare_eq_compareOfLessAndEq _ _ := rfl

/-- The empty key is below every other one. -/
theorem empty_lt_iff {k : Key} : empty < k ↔ k ≠ empty := by
  rw [lt_iff_le_and_ne, ne_comm]
  exact and_iff_right (empty_le k)

end Key

end SortedTable
