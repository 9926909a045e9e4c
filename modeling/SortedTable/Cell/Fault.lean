import SortedTable.Cell.Type

/-!
# What can go wrong with a cell

The three reasons for which a cell is not written or not read, and what is said of each.
-/

namespace SortedTable

/-- **Why a cell was refused.** -/
inductive Fault
  /-- The type asked for has no layout. -/
  | unsupported (type : CellType)
  /-- The cell has another length than every value of the type. -/
  | malformed (type : CellType) (expected actual : Nat)
  /-- The value to be written is of another type. -/
  | mismatch (expected actual : CellType)
  deriving DecidableEq, Repr

/-- What is said of a fault. -/
def Fault.message : Fault → String
  | unsupported t => "unsupported scalar type: " ++ t.name
  | malformed t expected actual =>
    "malformed " ++ t.name ++ " cell: expected " ++ Nat.repr expected ++ " bytes, got " ++
      Nat.repr actual
  | mismatch expected actual =>
    "type mismatch: expected " ++ expected.name ++ ", got " ++ actual.name

end SortedTable
