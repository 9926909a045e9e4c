import SortedTable.Interval.Basic

/-!
# Repeated intervals

Which members of a list of intervals say something new. Two intervals count as the same only if
they are written the same way, with the same endpoints of the same kinds; intervals that hold the
same keys can still be two. `SortedTable.Interval.freshFlags` marks the first occurrence of each,
and `SortedTable.Interval.countDistinct` counts the marks.
-/

namespace SortedTable

namespace Interval

/-- Marks the intervals that were not seen before, neither in `seen` nor further up the list. -/
def freshFlagsAfter (seen : List Interval) : List Interval → List Bool
  | [] => []
  | I :: rest => (!seen.contains I) :: freshFlagsAfter (I :: seen) rest

/-- **For each interval, whether it comes for the first time.** -/
def freshFlags (Is : List Interval) : List Bool := freshFlagsAfter [] Is

/-- Number of intervals, each counted once. -/
def countDistinct (Is : List Interval) : Nat := (freshFlags Is).count true

/-- Flags of a longer list: the later part is judged with the earlier part in view. -/
theorem freshFlagsAfter_append (seen Is Js : List Interval) :
    freshFlagsAfter seen (Is ++ Js) =
      freshFlagsAfter seen Is ++ freshFlagsAfter (Is.reverse ++ seen) Js := by
  induction Is generalizing seen with
  | nil => rfl
  | cons I rest ih => simp [freshFlagsAfter, ih]

/-- An interval at the end of a list is marked exactly when it does not occur before. -/
theorem freshFlags_concat (Is : List Interval) (I : Interval) :
    freshFlags (Is ++ [I]) = freshFlags Is ++ [!Is.contains I] := by
  simp [freshFlags, freshFlagsAfter_append, freshFlagsAfter]

end Interval

end SortedTable
