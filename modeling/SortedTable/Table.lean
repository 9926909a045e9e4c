import SortedTable.Interval.Basic

/-!
# Tables of keys

What a scan runs over: the rows of a table, of which only the keys matter here. A
`SortedTable.Table` holds them strictly ascending, each once, and keeps that in its type.

A scan of an interval never asks the interval about a single row. It takes the two endpoints,
skips the rows below the lower one and stops at the first row above the upper one. A table reads an
endpoint in its own way, by comparing its key with the key of a row. That this gives the same rows
as asking the interval about each is what makes the rows of an interval one unbroken block of the
table.
-/

namespace SortedTable

/-- **The keys of a table's rows**, strictly ascending. -/
structure Table where
  /-- The keys in table order. -/
  keys : List Key
  /-- No key comes twice, and smaller ones come first. -/
  ascending : keys.Pairwise (· < ·)

namespace Table

/-! ### Filling a table -/

/-- Puts a key in its place in an ascending list; a key that is there already stays single. -/
def place (k : Key) : List Key → List Key
  | [] => [k]
  | j :: rest =>
    if k < j then k :: j :: rest
    else if j < k then j :: place k rest
    else j :: rest

/-- Placing a key adds that key and no other. -/
theorem mem_place {k i : Key} {keys : List Key} : i ∈ place k keys ↔ i = k ∨ i ∈ keys := by
  induction keys with
  | nil => simp [place]
  | cons j rest ih =>
    rw [place]
    by_cases hkj : k < j
    · simp [hkj]
    · by_cases hjk : j < k
      · simp only [hkj, hjk, if_true, if_false, List.mem_cons, ih]
        exact or_left_comm
      · obtain rfl : k = j := Key.le_antisymm (Key.not_lt.mp hjk) (Key.not_lt.mp hkj)
        rw [if_neg hkj, if_neg hkj]
        simp

/-- Placing a key keeps the list ascending. -/
theorem pairwise_place {k : Key} {keys : List Key} (h : keys.Pairwise (· < ·)) :
    (place k keys).Pairwise (· < ·) := by
  induction keys with
  | nil => simp [place]
  | cons j rest ih =>
    obtain ⟨hj, hrest⟩ := List.pairwise_cons.mp h
    rw [place]
    by_cases hkj : k < j
    · rw [if_pos hkj]
      refine List.pairwise_cons.mpr ⟨fun i hi => ?_, h⟩
      rcases List.mem_cons.mp hi with rfl | hi
      · exact hkj
      · exact Key.lt_trans hkj (hj i hi)
    · rw [if_neg hkj]
      by_cases hjk : j < k
      · rw [if_pos hjk]
        refine List.pairwise_cons.mpr ⟨fun i hi => ?_, ih hrest⟩
        rcases mem_place.mp hi with rfl | hi
        · exact hjk
        · exact hj i hi
      · rw [if_neg hjk]
        exact h

/-- The table without rows. -/
def empty : Table := ⟨[], .nil⟩

/-- The table with one row more, or the same table if the row is there. -/
def insert (t : Table) (k : Key) : Table := ⟨place k t.keys, pairwise_place t.ascending⟩

/-- The table of the given keys, whatever their order and however often they come. -/
def ofKeys (keys : List Key) : Table := keys.foldr (fun k t => t.insert k) empty

/-- A table made of keys holds exactly those keys. -/
theorem mem_ofKeys {k : Key} {keys : List Key} : k ∈ (ofKeys keys).keys ↔ k ∈ keys := by
  induction keys with
  | nil => simp [ofKeys, empty]
  | cons j rest ih =>
    rw [ofKeys, List.foldr_cons, ← ofKeys, insert]
    simp only [mem_place, ih, List.mem_cons]

/-! ### Scanning -/

/-- Whether a row is passed over on the way to a lower end: it comes before the key of the end, or
it is that key and the end leaves it out. -/
def skips (lower : Endpoint Key) (row : Key) : Bool :=
  match lower with
  | .unbounded => false
  | .inclusive k => compare row k == .lt
  | .exclusive k => compare row k != .gt

/-- Whether a row is too far on for an upper end: it comes after the key of the end, or it is that
key and the end leaves it out. -/
def stops (upper : Endpoint Key) (row : Key) : Bool :=
  match upper with
  | .unbounded => false
  | .inclusive k => compare row k == .gt
  | .exclusive k => compare row k != .lt

/-- The rows between two endpoints: those below the lower one are skipped, and the first one above
the upper one ends the scan. -/
def rowsBetween (t : Table) (lower upper : Endpoint Key) : List Key :=
  (t.keys.dropWhile (skips lower)).takeWhile fun row => !stops upper row

/-- **The rows of an interval**, found from its endpoints. An interval that is known to be empty is
not looked up. -/
def scan (t : Table) (I : Interval) : List Key :=
  if I.isEmpty then []
  else
    match I.bounds? with
    | none => []
    | some (lower, upper) => t.rowsBetween lower upper

end Table

end SortedTable
