import SortedTable.Interval.Basic

/-!
# Intersection of intervals

The keys that two intervals share form an interval again: from the tighter of the lower ends to
the tighter of the upper ends. Where those two ends leave no room, the answer is
`SortedTable.Interval.empty`, and the ends are forgotten.

The intervals a caller can reach without writing down endpoints, by the constructors and by
intersection, are described by `SortedTable.Interval.Reachable`.
-/

namespace SortedTable

namespace Interval

/-- **The keys in both intervals.** -/
def inter : Interval → Interval → Interval
  | between lower upper, between lower' upper' =>
    let narrowed := between (lower.tighterLower lower') (upper.tighterUpper upper')
    if narrowed.isEmpty then empty else narrowed
  | _, _ => empty

instance : Inter Interval := ⟨inter⟩

/-- The keys in all of the intervals of a non-empty list, taken in from left to right. The first
interval stands as it is until a second one comes. -/
def interAll (first : Interval) (rest : List Interval) : Interval := rest.foldl (· ∩ ·) first

theorem inter_def (I J : Interval) : I ∩ J = inter I J := rfl

theorem empty_inter (I : Interval) : empty ∩ I = empty := rfl

theorem inter_empty (I : Interval) : I ∩ empty = empty := by cases I <;> rfl

theorem between_inter_between (l u l' u' : Endpoint Key) :
    between l u ∩ between l' u' =
      if (between (l.tighterLower l') (u.tighterUpper u')).isEmpty then empty
      else between (l.tighterLower l') (u.tighterUpper u') := rfl

theorem interAll_nil (I : Interval) : interAll I [] = I := rfl

theorem interAll_cons (I J : Interval) (rest : List Interval) :
    interAll I (J :: rest) = interAll (I ∩ J) rest := rfl

/-- The intervals that the named constructors and intersection give. -/
inductive Reachable : Interval → Prop
  | infinite : Reachable infinite
  | empty : Reachable empty
  | icc (lo hi : Key) : Reachable (icc lo hi)
  | ioo (lo hi : Key) : Reachable (ioo lo hi)
  | ioc (lo hi : Key) : Reachable (ioc lo hi)
  | ico (lo hi : Key) : Reachable (ico lo hi)
  | startingWith (p : Key) : Reachable (startingWith p)
  | ofFlags (left : Key) (leftOpen : Bool) (right : Key) (rightOpen : Bool) :
    Reachable (ofFlags left leftOpen right rightOpen)
  | inter {I J : Interval} : Reachable I → Reachable J → Reachable (I ∩ J)

end Interval

end SortedTable
