/-!
# Floating-point numbers as bit patterns

A cell holds a floating-point number by its bit pattern, and patterns are kept as they are, the
many that are not a number among them. Two questions about the number itself have to be answered
from the pattern: whether it is not a number, and whether it is a zero.

From the top, a pattern is a sign bit, the exponent and the fraction. The exponent and the fraction
taken together, `SortedTable.BinaryFormat.magnitude`, grow with the absolute value of the number.
They are 0 for the two zeros alone; above the pattern of infinity, whose exponent is all ones and
whose fraction is 0, there are no numbers.
-/

namespace SortedTable

/-- A floating-point format, by two of its patterns. -/
structure BinaryFormat where
  /-- The sign bit alone: the pattern of the negative zero. -/
  signBit : Nat
  /-- The pattern of infinity: the exponent all ones, the fraction 0. -/
  infinity : Nat
  deriving DecidableEq, Repr

namespace BinaryFormat

/-- The format of 32 bits: 8 of them for the exponent, 23 for the fraction. -/
def single : BinaryFormat := ⟨0x80000000, 0x7F800000⟩

/-- The format of 64 bits: 11 of them for the exponent, 52 for the fraction. -/
def double : BinaryFormat := ⟨0x8000000000000000, 0x7FF0000000000000⟩

/-- A pattern without its sign. -/
def magnitude (f : BinaryFormat) (pattern : Nat) : Nat := pattern % f.signBit

/-- Whether the pattern is not a number. -/
def isNaN (f : BinaryFormat) (pattern : Nat) : Bool := decide (f.infinity < f.magnitude pattern)

/-- Whether the pattern is one of the two zeros. -/
def isZero (f : BinaryFormat) (pattern : Nat) : Bool := f.magnitude pattern == 0

/-- **Whether two patterns stand for the same number.** What is not a number equals nothing, itself
included; the two zeros are equal; any other number has one pattern only. -/
def equals (f : BinaryFormat) (a b : Nat) : Bool :=
  !f.isNaN a && !f.isNaN b && (a == b || f.isZero a && f.isZero b)

end BinaryFormat

end SortedTable
