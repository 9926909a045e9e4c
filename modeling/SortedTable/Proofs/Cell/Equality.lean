import SortedTable.Proofs.Cell.Number
import SortedTable.Proofs.Cell.Reversal

/-!
# Equal values and equal cells

Two values can be the same in two ways. Their cells can be the same, which for values of one type is
to be the same bit for bit; or they can be equal as values, by `SortedTable.Value.equals`. This file
compares the two.

| of one type | cells | as values |
|---|---|---|
| the same number, truth value or byte string | equal | equal |
| a pattern that is not a number, and itself | equal | not equal |
| the two zeros | not equal | equal |
| any two others | not equal | not equal |

Equality of values is not equality of anything that every value has, as the second row shows. It is
equality of what is meant, where something is meant (`SortedTable.Value.equals_iff_meaning?`). So it
is symmetric and transitive, and it is reflexive where something is meant and only there. What is
meant by a floating-point pattern is the number of `SortedTable.BinaryFormat.number?`.
-/

namespace SortedTable

/-! ### Words that are zeros -/

namespace Word

/-- Whether a word is a floating-point zero. -/
def isZero : Word → Bool
  | float bits => BinaryFormat.single.isZero bits.toNat
  | double bits => BinaryFormat.double.isZero bits.toNat
  | _ => false

/-- Whether a word is a floating-point pattern with the sign bit set. -/
def isNegative : Word → Bool
  | float bits => BinaryFormat.single.isNegative bits.toNat
  | double bits => BinaryFormat.double.isNegative bits.toNat
  | _ => false

end Word

/-! ### What is meant by a value -/

/-- **What a value can mean.** -/
inductive Meaning
  /-- A truth value. -/
  | bool (b : Bool)
  /-- An integer of 32 bits. -/
  | int32 (n : Int32)
  /-- An integer of 64 bits. -/
  | int64 (n : Int64)
  /-- A floating-point number of 32 bits. -/
  | float (x : BinaryNumber)
  /-- A floating-point number of 64 bits. -/
  | double (x : BinaryNumber)
  /-- A byte string. -/
  | string (bytes : List UInt8)
  deriving DecidableEq, Repr

namespace Value

variable {u v w : Value}

/-- **What is meant by a value**, if anything is. -/
def meaning? : Value → Option Meaning
  | word (.bool b) => some (.bool b)
  | word (.int32 n) => some (.int32 n)
  | word (.int64 n) => some (.int64 n)
  | word (.float bits) => (BinaryFormat.single.number? bits.toNat).map .float
  | word (.double bits) => (BinaryFormat.double.number? bits.toNat).map .double
  | string bytes => some (.string bytes)

/-- Whether a value is a floating-point pattern that is not a number. -/
def isNaN : Value → Bool
  | word w => w.isNaN
  | string _ => false

/-- **What is not a number**, bit by bit: a floating-point value with an exponent of ones only and a
fraction that is not 0. -/
theorem isNaN_iff : v.isNaN = true ↔
    (∃ bits, v = word (.float bits) ∧
        bits.toNat / 2 ^ 23 % 2 ^ 8 = 255 ∧ bits.toNat % 2 ^ 23 ≠ 0) ∨
      ∃ bits, v = word (.double bits) ∧
        bits.toNat / 2 ^ 52 % 2 ^ 11 = 2047 ∧ bits.toNat % 2 ^ 52 ≠ 0 := by
  rcases v with (b | n | n | bits | bits) | bytes
  case word.float =>
    refine BinaryFormat.isNaN_single_iff.trans ⟨fun h => Or.inl ⟨bits, rfl, h⟩, ?_⟩
    rintro (⟨_, ⟨⟩, h⟩ | ⟨_, ⟨⟩, -⟩)
    exact h
  case word.double =>
    refine BinaryFormat.isNaN_double_iff.trans ⟨fun h => Or.inr ⟨bits, rfl, h⟩, ?_⟩
    rintro (⟨_, ⟨⟩, -⟩ | ⟨_, ⟨⟩, h⟩)
    exact h
  all_goals simp [isNaN, Word.isNaN]

theorem meaning?_eq_none_iff : v.meaning? = none ↔ v.isNaN = true := by
  rcases v with (b | n | n | bits | bits) | bytes
  case word.float => exact Option.map_eq_none_iff.trans BinaryFormat.number?_eq_none_iff
  case word.double => exact Option.map_eq_none_iff.trans BinaryFormat.number?_eq_none_iff
  all_goals simp [meaning?, isNaN, Word.isNaN]

/-- Two patterns stand for one number, whatever else is said of the number. -/
theorem exists_map_eq_some_iff {g : BinaryNumber → Meaning} (hg : Function.Injective g)
    {x y : Option BinaryNumber} :
    (∃ m, x.map g = some m ∧ y.map g = some m) ↔ ∃ n, x = some n ∧ y = some n := by
  constructor
  · rintro ⟨m, hx, hy⟩
    obtain ⟨n, hn, rfl⟩ := Option.map_eq_some_iff.mp hx
    obtain ⟨n', hn', heq⟩ := Option.map_eq_some_iff.mp hy
    exact ⟨n, hn, hg heq ▸ hn'⟩
  · rintro ⟨n, rfl, rfl⟩
    exact ⟨g n, rfl, rfl⟩

/-- **Values are equal if the same is meant by them.** -/
theorem equals_iff_meaning? :
    u.equals v = true ↔ ∃ m, u.meaning? = some m ∧ v.meaning? = some m := by
  rcases u with (a | a | a | a | a) | a <;> rcases v with (b | b | b | b | b) | b
  case word.float.word.float =>
    exact (BinaryFormat.equals_iff_number? BinaryFormat.proper_single a.toNat_lt b.toNat_lt).trans
      (exists_map_eq_some_iff fun _ _ => Meaning.float.inj).symm
  case word.double.word.double =>
    exact (BinaryFormat.equals_iff_number? BinaryFormat.proper_double a.toNat_lt b.toNat_lt).trans
      (exists_map_eq_some_iff fun _ _ => Meaning.double.inj).symm
  -- Other values of one type mean themselves, and values of two types nothing in common.
  case word.bool.word.bool | word.int32.word.int32 | word.int64.word.int64 | string.string =>
    simp [equals, Word.equals, meaning?, eq_comm (a := a)]
  all_goals simp [equals, Word.equals, meaning?]

/-- **Equality of values is symmetric.** -/
theorem equals_symm (h : u.equals v = true) : v.equals u = true := by
  obtain ⟨m, hu, hv⟩ := equals_iff_meaning?.mp h
  exact equals_iff_meaning?.mpr ⟨m, hv, hu⟩

/-- **Equality of values is transitive.** -/
theorem equals_trans (huv : u.equals v = true) (hvw : v.equals w = true) : u.equals w = true := by
  obtain ⟨m, hu, hv⟩ := equals_iff_meaning?.mp huv
  obtain ⟨m', hv', hw⟩ := equals_iff_meaning?.mp hvw
  obtain rfl : m = m' := Option.some.inj (hv.symm.trans hv')
  exact equals_iff_meaning?.mpr ⟨m, hu, hw⟩

/-- **A value is equal to itself if anything is meant by it.** -/
theorem equals_self_iff : v.equals v = true ↔ v.isNaN = false := by
  rw [equals_iff_meaning?, Bool.eq_false_iff, ne_eq, ← meaning?_eq_none_iff, ← ne_eq,
    Option.ne_none_iff_exists']
  simp only [and_self]

/-! ### Two ways to be equal -/

/-- **The two zeros of one floating-point type**, in any order. -/
def OppositeZeros : Value → Value → Prop
  | word a, word b =>
    a.type = b.type ∧ a.isZero = true ∧ b.isZero = true ∧ a.isNegative ≠ b.isNegative
  | _, _ => False

/-- The zeros have no bit set but the sign bit, and one of the two has that. -/
theorem oppositeZeros_iff : u.OppositeZeros v ↔
    (u = word (.float 0) ∧ v = word (.float 0x80000000) ∨
        u = word (.float 0x80000000) ∧ v = word (.float 0)) ∨
      (u = word (.double 0) ∧ v = word (.double 0x8000000000000000) ∨
        u = word (.double 0x8000000000000000) ∧ v = word (.double 0)) := by
  rcases u with (a | a | a | a | a) | a <;> rcases v with (b | b | b | b | b) | b
  case word.float.word.float =>
    have hzeros := BinaryFormat.isZero_and_isNegative_ne_iff BinaryFormat.proper_single a.toNat_lt
      b.toNat_lt
    refine (and_iff_right rfl).trans (hzeros.trans ?_)
    simp [BinaryFormat.single, ← UInt32.toNat_inj]
  case word.double.word.double =>
    have hzeros := BinaryFormat.isZero_and_isNegative_ne_iff BinaryFormat.proper_double a.toNat_lt
      b.toNat_lt
    refine (and_iff_right rfl).trans (hzeros.trans ?_)
    simp [BinaryFormat.double, ← UInt64.toNat_inj]
  all_goals simp [OppositeZeros, Word.isZero, Word.type]

/-- **Values are equal in two ways**: they are the same and not a pattern without a number, or they
are zeros and differ in the sign. -/
theorem equals_iff_eq_or : u.equals v = true ↔ u = v ∧ u.isNaN = false ∨ u.OppositeZeros v := by
  rcases u with (a | a | a | a | a) | a <;> rcases v with (b | b | b | b | b) | b
  case word.float.word.float =>
    have hsame : word (.float a) = word (.float b) ↔ a.toNat = b.toNat := by
      simp [UInt32.toNat_inj]
    rw [hsame]
    exact (BinaryFormat.equals_iff_eq_or (f := .single) a.toNat_lt b.toNat_lt).trans
      (or_congr_right (and_iff_right rfl).symm)
  case word.double.word.double =>
    have hsame : word (.double a) = word (.double b) ↔ a.toNat = b.toNat := by
      simp [UInt64.toNat_inj]
    rw [hsame]
    exact (BinaryFormat.equals_iff_eq_or (f := .double) a.toNat_lt b.toNat_lt).trans
      (or_congr_right (and_iff_right rfl).symm)
  all_goals simp [equals, Word.equals, isNaN, Word.isNaN, OppositeZeros, Word.isZero, Word.type]

end Value

/-! ### Values and their cells -/

namespace Layout

/-- **Equality of values against equality of cells**, in either layout. Of two values of one type
the cells are the same only if the values are, bit for bit. Values are equal exactly if they are of
one type and have the same cell and are not patterns without a number, or else if they are zeros of one
floating-point type with opposite signs. So equality is symmetric and transitive; and what is read
from the cell of a value is equal to the value exactly if that is not a pattern without a number. -/
theorem equality_by_cells (L : Layout) :
    (∀ u v : Value, ∃ c d, L.encode u u.type = .ok c ∧ L.encode v v.type = .ok d ∧
        (u.type = v.type → (c = d ↔ u = v)) ∧
        (u.equals v = true ↔
          (u.type = v.type ∧ c = d ∧ u.isNaN = false ∧ v.isNaN = false) ∨ u.OppositeZeros v)) ∧
      (∀ u v : Value, u.equals v = true → v.equals u = true) ∧
      (∀ u v w : Value, u.equals v = true → v.equals w = true → u.equals w = true) ∧
      ∀ v : Value, ∃ c u, L.encode v v.type = .ok c ∧ L.decode c v.type = .ok u ∧
        (v.equals u = true ↔ v.isNaN = false) := by
  have hcells : ∀ u v : Value, u.type = v.type → (L.cell u = L.cell v ↔ u = v) :=
    fun u v htype => ⟨eq_of_cell_eq htype, congrArg L.cell⟩
  refine ⟨fun u v => ⟨L.cell u, L.cell v, encode_type L u, encode_type L v, hcells u v, ?_⟩,
    fun u v => Value.equals_symm, fun u v w => Value.equals_trans,
    fun v => ⟨L.cell v, v, encode_type L v, decode_cell L v, Value.equals_self_iff⟩⟩
  rw [Value.equals_iff_eq_or]
  refine or_congr_left ⟨?_, ?_⟩
  · rintro ⟨rfl, hu⟩
    exact ⟨rfl, rfl, hu, hu⟩
  · rintro ⟨htype, hcell, hu, -⟩
    exact ⟨(hcells u v htype).mp hcell, hu⟩

/-- The two zeros, which are equal and have different cells, and a pattern without a number, which
is read back and is not equal to what is read. -/
theorem equality_by_cells_zeros :
    let plus : Value := .word (.float 0)
    let minus : Value := .word (.float 0x80000000)
    let nan : Value := .word (.float 0x7FC00001)
    (∃ c d, standard.encode plus plus.type = .ok c ∧ standard.encode minus minus.type = .ok d ∧
        c ≠ d) ∧
      plus.equals minus = true ∧ minus.equals plus = true ∧ plus.equals plus = true ∧
      ∃ c u, standard.encode nan nan.type = .ok c ∧ standard.decode c nan.type = .ok u ∧
        nan.equals u = false := by
  intro plus minus nan
  obtain ⟨hpairs, hsymm, htrans, hread⟩ := equality_by_cells standard
  obtain ⟨c, d, hc, hd, hcells, -⟩ := hpairs plus minus
  obtain ⟨e, u, he, hu, hself⟩ := hread nan
  have hequal : plus.equals minus = true := by decide
  have hback : minus.equals plus = true := hsymm plus minus hequal
  have hne : plus ≠ minus := by decide
  have hnan : nan.isNaN ≠ false := by decide
  refine ⟨⟨c, d, hc, hd, mt (hcells rfl).mp hne⟩, hequal, hback, htrans _ _ _ hequal hback,
    e, u, he, hu, ?_⟩
  exact Bool.eq_false_iff.mpr (mt hself.mp hnan)

end Layout

end SortedTable
