/-!
# Keys

A row of a sorted table is found by its **key**: a string of bytes, of any length and with any
bytes in it. This file holds the type, its order, and the two neighbourhood facts about the order
that the rest of the library is built on.

The order is the one the rows lie in: byte by byte, as unsigned numbers, a proper prefix before
everything that extends it. It has a least element, the empty key, and no greatest one; and it is
not dense. Directly above `k` lies `SortedTable.Key.next k`, which is `k` with one zero byte after
it, and nothing lies strictly between the two. That single fact, `SortedTable.Key.next_le_iff`,
is why an open interval between two different keys can still hold nothing.
-/

namespace SortedTable

/-- A row key: its bytes, first to last. -/
structure Key where
  /-- The bytes of the key. -/
  bytes : List UInt8
  deriving DecidableEq, Repr, Inhabited

namespace Key

/-- The key without bytes. It is a legal key, and the least one. -/
def empty : Key := ⟨[]⟩

/-- The key spelled by a text: its UTF-8 bytes. -/
def ofString (text : String) : Key := ⟨text.toUTF8.toList⟩

/-- Number of bytes. -/
def length (k : Key) : Nat := k.bytes.length

/-- Whether this is the empty key. -/
def isEmpty (k : Key) : Bool := k.bytes.isEmpty

/-- Whether the key begins with the bytes of `p`. -/
def startsWith (k p : Key) : Bool := p.bytes.isPrefixOf k.bytes

/-! ### The order -/

instance : LT Key := ⟨fun a b => a.bytes < b.bytes⟩

instance : LE Key := ⟨fun a b => a.bytes ≤ b.bytes⟩

instance decidableLT (a b : Key) : Decidable (a < b) :=
  inferInstanceAs (Decidable (a.bytes < b.bytes))

instance decidableLE (a b : Key) : Decidable (a ≤ b) :=
  inferInstanceAs (Decidable (a.bytes ≤ b.bytes))

instance : Ord Key := ⟨fun a b => compareOfLessAndEq a b⟩

instance : Max Key := maxOfLe

/-- The keys in ascending order, equal ones side by side. -/
def sort (keys : List Key) : List Key := keys.mergeSort fun a b => decide (a ≤ b)

theorem lt_def {a b : Key} : a < b ↔ a.bytes < b.bytes := Iff.rfl

theorem le_def {a b : Key} : a ≤ b ↔ a.bytes ≤ b.bytes := Iff.rfl

protected theorem lt_irrefl (a : Key) : ¬a < a := List.lt_irrefl a.bytes

protected theorem lt_trans {a b c : Key} (hab : a < b) (hbc : b < c) : a < c :=
  List.lt_trans hab hbc

protected theorem not_lt {a b : Key} : ¬a < b ↔ b ≤ a := List.not_lt

protected theorem le_antisymm {a b : Key} (hab : a ≤ b) (hba : b ≤ a) : a = b := by
  cases a
  cases b
  exact congrArg Key.mk (List.le_antisymm hab hba)

/-- There is a least key. -/
theorem empty_le (k : Key) : empty ≤ k := Key.not_lt.mp (List.not_lt_nil k.bytes)

/-! ### The key directly above -/

/-- The least key above `k`: the same bytes and one zero byte more. -/
def next (k : Key) : Key := ⟨k.bytes ++ [0]⟩

/-- **Nothing lies strictly between a key and the next one**: to be above `k` is to be at or above
`k.next`. -/
theorem next_le_iff {k j : Key} : k.next ≤ j ↔ k < j := by
  rw [← Key.not_lt, lt_def, lt_def, next]
  generalize k.bytes = l
  generalize j.bytes = m
  induction l generalizing m with
  | nil =>
    cases m with
    | nil => simp
    | cons y ys =>
      have h0 : ¬y < 0 := by simp [UInt8.lt_iff_toNat_lt]
      simp [List.cons_lt_cons_iff, h0]
  | cons x xs ih =>
    cases m with
    | nil => simp
    | cons y ys =>
      simp only [List.cons_append, List.cons_lt_cons_iff, ← ih]
      rcases Nat.lt_trichotomy x.toNat y.toNat with h | h | h
      · have hxy : x < y := UInt8.lt_iff_toNat_lt.mpr h
        refine iff_of_true ?_ (Or.inl hxy)
        rintro (hyx | ⟨hyx, -⟩)
        · exact UInt8.lt_asymm hxy hyx
        · exact UInt8.ne_of_lt hxy hyx.symm
      · obtain rfl : x = y := UInt8.toNat_inj.mp h
        simp [UInt8.lt_irrefl]
      · have hyx : y < x := UInt8.lt_iff_toNat_lt.mpr h
        refine iff_of_false (fun hn => hn (Or.inl hyx)) ?_
        rintro (hxy | ⟨hxy, -⟩)
        · exact UInt8.lt_asymm hyx hxy
        · exact UInt8.ne_of_lt hyx hxy.symm

theorem lt_next (k : Key) : k < k.next := next_le_iff.mp (Key.not_lt.mp (Key.lt_irrefl _))

/-- Whether `j` is the key directly above `k`: it is one byte longer, begins with `k` and ends in a
zero byte. -/
def isNext (k j : Key) : Bool :=
  j.length == k.length + 1 && j.startsWith k && j.bytes.getLast? == some 0

/-- **The three tests find the next key and no other.** -/
theorem isNext_iff {k j : Key} : k.isNext j = true ↔ j = k.next := by
  obtain ⟨bytes⟩ := j
  simp only [isNext, Bool.and_eq_true, beq_iff_eq]
  constructor
  · rintro ⟨⟨hlength, hstarts⟩, hlast⟩
    obtain ⟨rest, rfl⟩ := List.isPrefixOf_iff_prefix.mp hstarts
    obtain ⟨b, rfl⟩ : ∃ b, rest = [b] := by
      simp only [length, List.length_append, Nat.add_left_cancel_iff] at hlength
      exact List.length_eq_one_iff.mp hlength
    obtain rfl : b = 0 := by simpa using hlast
    rfl
  · intro h
    obtain rfl : bytes = k.bytes ++ [0] := congrArg Key.bytes h
    simp [length, startsWith]

end Key

end SortedTable
