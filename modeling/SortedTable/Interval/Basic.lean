import SortedTable.Interval.Endpoint
import SortedTable.Key.PrefixEnd

/-!
# Intervals of keys

An **interval** is a stretch of the key order: nothing, or everything between two endpoints.
Endpoints are never checked when an interval is made. One whose lower key lies above its upper key
is legal, and simply holds no key.

Three questions can be asked of an interval without naming a key, and they are answered from the
endpoints alone:

| question | what is looked at |
|---|---|
| `SortedTable.Interval.isEmpty` | whether the ends have crossed, or enclose a gap of the order |
| `SortedTable.Interval.isInfinite` | whether both ends are unbounded |
| `SortedTable.Interval.validate` | `isEmpty`, where both ends name a key |

The first is the one to get right, since the key order is not dense. Two ends that have crossed,
`SortedTable.Endpoint.crossed`, leave room for no key of any order. Two exclusive ends at `k` and
at `k.next` have not crossed, and still no key lies between them. An unbounded end takes no part in
either, and an interval with such an end does not count as empty.
-/

namespace SortedTable

/-- **A stretch of the key order.** -/
inductive Interval
  /-- The interval that was found to hold nothing. -/
  | empty
  /-- The keys between two endpoints. -/
  | between (lower upper : Endpoint Key)
  deriving DecidableEq, Repr

namespace Interval

/-! ### Making intervals -/

/-- Every key. -/
def infinite : Interval := between .unbounded .unbounded

instance : Inhabited Interval := ⟨infinite⟩

/-- The keys `k` with `lo ≤ k ≤ hi`. -/
def icc (lo hi : Key) : Interval := between (.inclusive lo) (.inclusive hi)

/-- The keys `k` with `lo < k < hi`. -/
def ioo (lo hi : Key) : Interval := between (.exclusive lo) (.exclusive hi)

/-- The keys `k` with `lo < k ≤ hi`. -/
def ioc (lo hi : Key) : Interval := between (.exclusive lo) (.inclusive hi)

/-- The keys `k` with `lo ≤ k < hi`. -/
def ico (lo hi : Key) : Interval := between (.inclusive lo) (.exclusive hi)

/-- **The keys that begin with `p`**: from `p` up to the end of the prefix, or without end where
the prefix has none. -/
def startingWith (p : Key) : Interval :=
  match p.prefixEnd? with
  | some stop => between (.inclusive p) (.exclusive stop)
  | none => between (.inclusive p) .unbounded

/-- The interval between two keys, each left out if its flag is set. Two empty keys stand for
every key, whatever the flags. -/
def ofFlags (left : Key) (leftOpen : Bool) (right : Key) (rightOpen : Bool) : Interval :=
  if left.isEmpty && right.isEmpty then infinite
  else
    match leftOpen, rightOpen with
    | true, true => ioo left right
    | false, false => icc left right
    | false, true => ico left right
    | true, false => ioc left right

/-! ### Asking about a key -/

/-- The two endpoints, unless the interval is `empty`. -/
def bounds? : Interval → Option (Endpoint Key × Endpoint Key)
  | empty => none
  | between lower upper => some (lower, upper)

/-- **Whether the interval holds the key.** -/
def contains : Interval → Key → Bool
  | empty, _ => false
  | between lower upper, k => lower.admitsAbove k && upper.admitsBelow k

instance : Membership Key Interval := ⟨fun I k => I.contains k = true⟩

instance (k : Key) (I : Interval) : Decidable (k ∈ I) :=
  inferInstanceAs (Decidable (I.contains k = true))

theorem mem_def {k : Key} {I : Interval} : k ∈ I ↔ I.contains k = true := Iff.rfl

theorem not_mem_empty (k : Key) : k ∉ empty := Bool.false_ne_true

/-- A key is in an interval when it is on the inner side of both endpoints. -/
theorem mem_between {k : Key} {lower upper : Endpoint Key} :
    k ∈ between lower upper ↔ lower.admitsAbove k = true ∧ upper.admitsBelow k = true := by
  rw [mem_def, contains, Bool.and_eq_true]

/-! ### Asking about all keys -/

/-- **Whether the interval holds nothing**, as its endpoints tell: both leave out the keys at the
rim of a gap, the upper key being the next one after the lower, or the ends have crossed. -/
def isEmpty : Interval → Bool
  | empty => true
  | between (.exclusive lo) (.exclusive hi) =>
    lo.isNext hi || (Endpoint.exclusive lo).crossed (.exclusive hi)
  | between lower upper => lower.crossed upper

/-- Whether the interval is unbounded on both sides. -/
def isInfinite : Interval → Bool
  | between .unbounded .unbounded => true
  | _ => false

/-! ### Refusing bounds that hold nothing -/

/-- Two keys were given as bounds and no key lies between them. -/
structure StartPastEnd where
  /-- The key of the lower end. -/
  start : Key
  /-- The key of the upper end. -/
  stop : Key
  deriving DecidableEq, Repr

/-- Refuses an interval whose ends both name a key if it holds nothing. Any other interval
passes, `empty` included. -/
def validate (I : Interval) : Except StartPastEnd Unit :=
  match I with
  | empty => .ok ()
  | between lower upper =>
    match lower.key?, upper.key? with
    | some start, some stop => if I.isEmpty then .error ⟨start, stop⟩ else .ok ()
    | _, _ => .ok ()

end Interval

end SortedTable
