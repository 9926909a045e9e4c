import SortedTable.Interval.Intersection

/-!
# Selections of rows

A **selection** says which rows a reader is interested in: single keys and intervals, written down
one after another. It holds a key if any of its entries does. Entries are kept as they were
appended, overlapping or repeated ones too, so the order in which they came never changes what is
selected, only how the selection reads.

Clipping a selection to an interval, `SortedTable.Selection.clip`, works entry by entry. A key
stays if the interval holds it, an interval is narrowed, and what is left with nothing goes. It
makes a new selection; the one it started from is a value like any other and stays what it was.
-/

namespace SortedTable

/-- One member of a selection. -/
inductive Entry
  /-- A single key. -/
  | key (k : Key)
  /-- A stretch of keys. -/
  | interval (I : Interval)
  deriving DecidableEq, Repr

namespace Entry

/-- Whether the entry selects the key. -/
def contains : Entry → Key → Bool
  | key k, j => k == j
  | interval I, j => I.contains j

instance : Membership Key Entry := ⟨fun e k => e.contains k = true⟩

instance (k : Key) (e : Entry) : Decidable (k ∈ e) :=
  inferInstanceAs (Decidable (e.contains k = true))

theorem mem_def {k : Key} {e : Entry} : k ∈ e ↔ e.contains k = true := Iff.rfl

theorem mem_key {k j : Key} : j ∈ key k ↔ k = j := beq_iff_eq

theorem mem_interval {j : Key} {I : Interval} : j ∈ interval I ↔ j ∈ I := Iff.rfl

/-- What an interval leaves of an entry, if it leaves anything. -/
def clip? : Entry → Interval → Option Entry
  | key k, I => if I.contains k then some (key k) else none
  | interval J, I =>
    let clipped := J ∩ I
    if clipped.isEmpty then none else some (interval clipped)

end Entry

/-- **A union of single keys and intervals**, in the order they were appended. -/
structure Selection where
  /-- The members, first appended first. -/
  entries : List Entry
  deriving DecidableEq, Repr

namespace Selection

/-! ### Building up a selection -/

/-- The selection that selects nothing. -/
def empty : Selection := ⟨[]⟩

instance : Inhabited Selection := ⟨empty⟩

/-- The selection of the given keys, in their order. -/
def ofKeys (keys : List Key) : Selection := ⟨keys.map .key⟩

/-- Appends one key. -/
def appendKey (S : Selection) (k : Key) : Selection := ⟨S.entries ++ [.key k]⟩

/-- Appends one interval. -/
def appendInterval (S : Selection) (I : Interval) : Selection := ⟨S.entries ++ [.interval I]⟩

/-- Appends several intervals, in their order. -/
def extend (S : Selection) (Is : List Interval) : Selection :=
  ⟨S.entries ++ Is.map .interval⟩

/-! ### Asking -/

/-- **Whether any entry selects the key.** -/
def contains (S : Selection) (k : Key) : Bool := S.entries.any fun e => e.contains k

/-- Number of entries, overlapping ones counted each. -/
def size (S : Selection) : Nat := S.entries.length

/-- Whether there is no entry. A selection of empty intervals has entries. -/
def isEmpty (S : Selection) : Bool := S.entries.isEmpty

instance : Membership Key Selection := ⟨fun S k => S.contains k = true⟩

instance (k : Key) (S : Selection) : Decidable (k ∈ S) :=
  inferInstanceAs (Decidable (S.contains k = true))

theorem mem_def {k : Key} {S : Selection} : k ∈ S ↔ S.contains k = true := Iff.rfl

/-- A selection is the union of its entries. -/
theorem mem_iff {k : Key} {S : Selection} : k ∈ S ↔ ∃ e ∈ S.entries, k ∈ e := by
  rw [mem_def, contains, List.any_eq_true]
  rfl

theorem not_mem_empty (k : Key) : k ∉ empty := Bool.false_ne_true

theorem mem_ofKeys {k : Key} {keys : List Key} : k ∈ ofKeys keys ↔ k ∈ keys := by
  constructor
  · intro h
    obtain ⟨e, he, hk⟩ := mem_iff.mp h
    obtain ⟨j, hj, rfl⟩ := List.mem_map.mp he
    exact Entry.mem_key.mp hk ▸ hj
  · intro h
    exact mem_iff.mpr ⟨.key k, List.mem_map_of_mem h, Entry.mem_key.mpr rfl⟩

theorem mem_appendKey {j k : Key} {S : Selection} : j ∈ S.appendKey k ↔ j ∈ S ∨ j = k := by
  simp only [mem_iff, appendKey, List.mem_append, List.mem_singleton, or_and_right, exists_or,
    exists_eq_left, Entry.mem_key, eq_comm (a := k)]

theorem mem_appendInterval {j : Key} {S : Selection} {I : Interval} :
    j ∈ S.appendInterval I ↔ j ∈ S ∨ j ∈ I := by
  simp only [mem_iff, appendInterval, List.mem_append, List.mem_singleton, or_and_right, exists_or,
    exists_eq_left, Entry.mem_interval]

theorem mem_extend {j : Key} {S : Selection} {Is : List Interval} :
    j ∈ S.extend Is ↔ j ∈ S ∨ ∃ I ∈ Is, j ∈ I := by
  simp only [mem_iff, extend, List.mem_append, or_and_right, exists_or]
  refine or_congr Iff.rfl ⟨?_, ?_⟩
  · rintro ⟨e, he, hj⟩
    obtain ⟨I, hI, rfl⟩ := List.mem_map.mp he
    exact ⟨I, hI, hj⟩
  · rintro ⟨I, hI, hj⟩
    exact ⟨.interval I, List.mem_map_of_mem hI, hj⟩

/-! ### Clipping -/

/-- **The part of a selection inside an interval**: each entry is clipped, and the entries of which
nothing is left are dropped. -/
def clip (S : Selection) (I : Interval) : Selection := ⟨S.entries.filterMap fun e => e.clip? I⟩

end Selection

end SortedTable
