import SortedTable.Cell.Binary
import SortedTable.Cell.LittleEndian
import SortedTable.Cell.Type

/-!
# Values of cells

A value is a **word**, which takes a fixed width, or a byte string. Every word has a **code**, the
number that its cell spells in one byte order or the other, and can be read off that number again.
Floating-point words are their bit patterns, so for them as for the integers the code is one to
one. Truth values are the exception: they have the codes 0 and 1, and any other number reads as
true.

Values are compared in two ways. Equality as terms is identity bit for bit.
`SortedTable.Value.equals` is the equality of the numbers meant, which differs from it on
floating-point words only.
-/

namespace SortedTable

/-- A value of fixed width. -/
inductive Word
  /-- A truth value. -/
  | bool (b : Bool)
  /-- A 32-bit integer. -/
  | int32 (n : Int32)
  /-- A 64-bit integer. -/
  | int64 (n : Int64)
  /-- A floating-point number of 32 bits, by its bit pattern. -/
  | float (bits : UInt32)
  /-- A floating-point number of 64 bits, by its bit pattern. -/
  | double (bits : UInt64)
  deriving DecidableEq, Repr

/-- **The value of a cell.** -/
inductive Value
  /-- A value of fixed width. -/
  | word (w : Word)
  /-- A byte string. -/
  | string (bytes : List UInt8)
  deriving DecidableEq, Repr

namespace Word

/-- The type of a word. -/
def type : Word → WordType
  | bool _ => .bool
  | int32 _ => .int32
  | int64 _ => .int64
  | float _ => .float
  | double _ => .double

/-- The number a word is stored as: integers in two's complement, floating-point numbers by their
bit pattern, truth values as 0 or 1. -/
def code : Word → Nat
  | bool b => b.toNat
  | int32 n => n.toUInt32.toNat
  | int64 n => n.toUInt64.toNat
  | float bits => bits.toNat
  | double bits => bits.toNat

/-- Whether a word is a floating-point pattern that is not a number. -/
def isNaN : Word → Bool
  | float bits => BinaryFormat.single.isNaN bits.toNat
  | double bits => BinaryFormat.double.isNaN bits.toNat
  | _ => false

/-- Whether two words stand for the same value of one type. -/
def equals : Word → Word → Bool
  | bool a, bool b => a == b
  | int32 a, int32 b => a == b
  | int64 a, int64 b => a == b
  | float a, float b => BinaryFormat.single.equals a.toNat b.toNat
  | double a, double b => BinaryFormat.double.equals a.toNat b.toNat
  | _, _ => false

end Word

/-- The word of this type that a number is the code of. For truth values, any number but 0 is
true. -/
def WordType.ofCode : WordType → Nat → Word
  | bool, n => .bool (n != 0)
  | int32, n => .int32 (UInt32.ofNat n).toInt32
  | int64, n => .int64 (UInt64.ofNat n).toInt64
  | float, n => .float (UInt32.ofNat n)
  | double, n => .double (UInt64.ofNat n)

namespace Value

/-- The type of a value. -/
def type : Value → CellType
  | word w => .word w.type
  | string _ => .string

/-- **Whether two values are the same value of one type.** Values of different types never are, and
what is not a number is not even the same as itself. -/
def equals : Value → Value → Bool
  | word a, word b => a.equals b
  | string a, string b => a == b
  | _, _ => false

end Value

/-! ### Words and their codes -/

theorem WordType.type_ofCode (t : WordType) (n : Nat) : (t.ofCode n).type = t := by
  cases t <;> rfl

/-- The code of a word fits into the width of its type. -/
theorem Word.code_lt (w : Word) : w.code < LittleEndian.capacity w.type.width := by
  cases w with
  | bool b => cases b <;> decide
  | int32 n => exact n.toUInt32.toNat_lt
  | int64 n => exact n.toUInt64.toNat_lt
  | float bits => exact bits.toNat_lt
  | double bits => exact bits.toNat_lt

/-- A word can be read off its code. -/
theorem Word.ofCode_code (w : Word) : w.type.ofCode w.code = w := by
  cases w with
  | bool b => cases b <;> rfl
  | int32 n => simp [Word.type, Word.code, WordType.ofCode]
  | int64 n => simp [Word.type, Word.code, WordType.ofCode]
  | float bits => simp [Word.type, Word.code, WordType.ofCode]
  | double bits => simp [Word.type, Word.code, WordType.ofCode]

/-- A number that fits is the code of the word read off it, unless that is a truth value. -/
theorem WordType.code_ofCode {t : WordType} (ht : t ≠ .bool) {n : Nat}
    (hn : n < LittleEndian.capacity t.width) : (t.ofCode n).code = n := by
  cases t with
  | bool => exact absurd rfl ht
  | int32 => simpa [Word.code, WordType.ofCode, WordType.width, LittleEndian.capacity] using hn
  | int64 => simpa [Word.code, WordType.ofCode, WordType.width, LittleEndian.capacity] using hn
  | float => simpa [Word.code, WordType.ofCode, WordType.width, LittleEndian.capacity] using hn
  | double => simpa [Word.code, WordType.ofCode, WordType.width, LittleEndian.capacity] using hn

end SortedTable
