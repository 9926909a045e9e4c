/-!
# Types of cells

The types a column of a table can be declared with. They fall into three kinds, and everything the
codec does depends on the kind alone.

| kind | types | a value takes |
|---|---|---|
| `SortedTable.WordType` | booleans, two integers, two floats | four or eight bytes, always the same |
| string | byte strings | as many bytes as it has |
| `SortedTable.NominalType` | the rest | nothing: such a type has a name and no layout |
-/

namespace SortedTable

/-- A type whose values fill a word of fixed width. -/
inductive WordType
  /-- Truth values. -/
  | bool
  /-- 32-bit integers. -/
  | int32
  /-- 64-bit integers. -/
  | int64
  /-- Floating-point numbers of 32 bits. -/
  | float
  /-- Floating-point numbers of 64 bits. -/
  | double
  deriving DecidableEq, Repr

/-- A type that has a name but no layout. -/
inductive NominalType
  /-- 8-bit integers. -/
  | int8
  /-- 16-bit integers. -/
  | int16
  /-- Unsigned 8-bit integers. -/
  | uint8
  /-- Unsigned 16-bit integers. -/
  | uint16
  /-- Unsigned 32-bit integers. -/
  | uint32
  /-- Unsigned 64-bit integers. -/
  | uint64
  /-- Floating-point numbers of 16 bits. -/
  | half
  deriving DecidableEq, Repr

/-- **The type of a cell.** -/
inductive CellType
  /-- Values of a fixed width. -/
  | word (w : WordType)
  /-- Byte strings. -/
  | string
  /-- A type without layout. -/
  | nominal (n : NominalType)
  deriving DecidableEq, Repr

namespace WordType

/-- The bytes a value takes. A truth value takes as many as a 32-bit integer. -/
def width : WordType → Nat
  | bool => 4
  | int32 => 4
  | int64 => 8
  | float => 4
  | double => 8

/-- The name of the type. -/
def name : WordType → String
  | bool => "bool"
  | int32 => "int32"
  | int64 => "int64"
  | float => "float"
  | double => "double"

end WordType

/-- The name of the type. -/
def NominalType.name : NominalType → String
  | int8 => "int8"
  | int16 => "int16"
  | uint8 => "uint8"
  | uint16 => "uint16"
  | uint32 => "uint32"
  | uint64 => "uint64"
  | half => "half"

namespace CellType

/-- The name of the type. -/
def name : CellType → String
  | word w => w.name
  | string => "string"
  | nominal n => n.name

/-- Whether values of the type can be stored. -/
def isSupported : CellType → Bool
  | nominal _ => false
  | _ => true

/-- The bytes every value of the type takes, if they are always as many. -/
def width? : CellType → Option Nat
  | word w => some w.width
  | _ => none

end CellType

end SortedTable
