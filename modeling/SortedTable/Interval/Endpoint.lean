/-!
# Endpoints

An interval has a lower and an upper **endpoint**, and each of them either names a key, which it
takes in or leaves out, or is unbounded. An endpoint does not know which side it is on: the same
`exclusive k` admits the keys above `k` as a lower end and the keys below `k` as an upper end.

Which of two endpoints is the tighter one therefore depends on the side too. Both questions are
answered by one order, that of the **cuts** `SortedTable.Cut`: the places at which a line of keys
can be cut in two, which are just before a key, just after a key, and beyond either end of the
line. A lower end is the cut below the first key it admits, an upper end the cut above the last
one, so tighter means further up for the one and further down for the other, and where two ends
share a key the one that leaves it out is the tighter.

Nothing here looks inside a key. Everything is stated for an arbitrary ordered type.
-/

universe u

namespace SortedTable

/-! ### Cuts of a line -/

/-- A place at which a line of keys can be cut in two. -/
inductive Cut (α : Type u)
  /-- Below every key. -/
  | bottom
  /-- Right below a key. -/
  | before (key : α)
  /-- Right above a key. -/
  | after (key : α)
  /-- Above every key. -/
  | top
  deriving DecidableEq, Repr

namespace Cut

variable {α : Type u}

/-- The order of the cuts along the line: right below a key comes before right above it. -/
def order [Ord α] : Cut α → Cut α → Ordering
  | bottom, bottom => .eq
  | bottom, _ => .lt
  | _, bottom => .gt
  | top, top => .eq
  | top, _ => .gt
  | _, top => .lt
  | before x, before y => compare x y
  | after x, after y => compare x y
  | before x, after y => (compare x y).then .lt
  | after x, before y => (compare x y).then .gt

instance [Ord α] : Ord (Cut α) := ⟨order⟩

end Cut

/-! ### Endpoints -/

/-- One end of an interval. -/
inductive Endpoint (α : Type u)
  /-- The interval runs on without end. -/
  | unbounded
  /-- The interval stops at this key and holds it. -/
  | inclusive (key : α)
  /-- The interval stops at this key and does not hold it. -/
  | exclusive (key : α)
  deriving DecidableEq, Repr

namespace Endpoint

variable {α : Type u}

/-- The key an endpoint names, if it names one. -/
def key? : Endpoint α → Option α
  | unbounded => none
  | inclusive k => some k
  | exclusive k => some k

/-- Whether a key is on the inner side of this endpoint, taken as a lower end. -/
def admitsAbove [LE α] [LT α] [DecidableLE α] [DecidableLT α] : Endpoint α → α → Bool
  | unbounded, _ => true
  | inclusive b, k => decide (b ≤ k)
  | exclusive b, k => decide (b < k)

/-- Whether a key is on the inner side of this endpoint, taken as an upper end. -/
def admitsBelow [LE α] [LT α] [DecidableLE α] [DecidableLT α] : Endpoint α → α → Bool
  | unbounded, _ => true
  | inclusive b, k => decide (k ≤ b)
  | exclusive b, k => decide (k < b)

/-- **Whether a lower and an upper end have crossed**: they stop at keys in the wrong order, or at
one key that not both of them take in. An unbounded end crosses no other. -/
def crossed [LE α] [LT α] [DecidableLE α] [DecidableLT α] : Endpoint α → Endpoint α → Bool
  | unbounded, _ => false
  | _, unbounded => false
  | inclusive a, inclusive b => decide (b < a)
  | inclusive a, exclusive b => decide (b ≤ a)
  | exclusive a, inclusive b => decide (b ≤ a)
  | exclusive a, exclusive b => decide (b ≤ a)

/-! ### The tighter of two endpoints -/

/-- Where the endpoint cuts the line if it is a lower end. -/
def lowerCut : Endpoint α → Cut α
  | unbounded => .bottom
  | inclusive k => .before k
  | exclusive k => .after k

/-- Where the endpoint cuts the line if it is an upper end. -/
def upperCut : Endpoint α → Cut α
  | unbounded => .top
  | inclusive k => .after k
  | exclusive k => .before k

/-- Lower ends in the order of their cuts: the greater, the tighter. -/
def compareLower [Ord α] (a b : Endpoint α) : Ordering := compare a.lowerCut b.lowerCut

/-- Upper ends in the order of their cuts: the smaller, the tighter. -/
def compareUpper [Ord α] (a b : Endpoint α) : Ordering := compare a.upperCut b.upperCut

/-- **The tighter of two lower ends.** At a shared key, an exclusive end wins. -/
def tighterLower [Ord α] (a b : Endpoint α) : Endpoint α :=
  if compareLower a b = .lt then b else a

/-- **The tighter of two upper ends.** At a shared key, an exclusive end wins. -/
def tighterUpper [Ord α] (a b : Endpoint α) : Endpoint α :=
  if compareUpper a b = .gt then b else a

/-- An endpoint can be told from where it cuts as a lower end. -/
theorem lowerCut_inj {a b : Endpoint α} : a.lowerCut = b.lowerCut ↔ a = b := by
  cases a <;> cases b <;> simp [lowerCut]

/-- An endpoint can be told from where it cuts as an upper end. -/
theorem upperCut_inj {a b : Endpoint α} : a.upperCut = b.upperCut ↔ a = b := by
  cases a <;> cases b <;> simp [upperCut]

end Endpoint

end SortedTable
