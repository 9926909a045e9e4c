import SortedTable.Interval.Basic

/-!
# Cutting an interval into pieces

The interval between two keys, cut at keys in between: the pieces in which a long scan is handed
out to several readers. The first piece keeps the left flag of the whole and the last one its right
flag. Every inner cut belongs to the piece that starts there, so it is left out of the piece that
ends there.
-/

namespace SortedTable

namespace Interval

/-- **The consecutive pieces** from `first` through the keys of `cuts`, the last of which is the
right end of the whole. -/
def pieces (first : Key) (leftOpen : Bool) (cuts : List Key) (rightOpen : Bool) : List Interval :=
  match cuts with
  | [] => []
  | [last] => [ofFlags first leftOpen last rightOpen]
  | cut :: next :: rest =>
    ofFlags first leftOpen cut true :: pieces cut false (next :: rest) rightOpen

theorem pieces_singleton (first last : Key) (leftOpen rightOpen : Bool) :
    pieces first leftOpen [last] rightOpen = [ofFlags first leftOpen last rightOpen] := rfl

/-- One piece for each cut, the right end counted among them. -/
theorem length_pieces (first : Key) (leftOpen : Bool) (cuts : List Key) (rightOpen : Bool) :
    (pieces first leftOpen cuts rightOpen).length = cuts.length := by
  fun_induction pieces first leftOpen cuts rightOpen with
  | case1 => rfl
  | case2 => rfl
  | case3 first leftOpen cut next rest ih => simp [ih]

end Interval

end SortedTable
