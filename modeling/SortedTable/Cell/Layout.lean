import SortedTable.Cell.Fault
import SortedTable.Cell.LittleEndian
import SortedTable.Cell.Value

/-!
# Layouts of cells

There are two ways to lay a word out in a cell: the **standard** layout puts its most significant
byte first, the **custom** layout its least significant one. Widths are the same in both, and byte
strings are stored as they are in both, so a cell does not show which layout it was written in.

Writing, `SortedTable.Layout.encode`, refuses a type without layout before it looks at the value,
and then a value of another type. Reading, `SortedTable.Layout.decode`, refuses a type without
layout before it looks at the cell, and then a cell that is not as long as every value of the type.
-/

namespace SortedTable

/-- The bytes stored in one column of one row. -/
abbrev Cell := List UInt8

/-- **How words lie in cells.** -/
inductive Layout
  /-- The most significant byte comes first. -/
  | standard
  /-- The least significant byte comes first. -/
  | custom
  deriving DecidableEq, Repr, Inhabited

namespace Layout

/-- The name of the layout. -/
def name : Layout → String
  | standard => "standard"
  | custom => "custom"

/-- Brings the bytes of a word, the least significant first, into the order of the layout, or back
from it. -/
def arrange : Layout → List UInt8 → List UInt8
  | standard, bytes => bytes.reverse
  | custom, bytes => bytes

/-- The cell of a value. -/
def cell (L : Layout) : Value → Cell
  | .word w => L.arrange (LittleEndian.write w.type.width w.code)
  | .string bytes => bytes

/-- **Writes a value as a cell** of the given type. -/
def encode (L : Layout) (v : Value) (t : CellType) : Except Fault Cell :=
  if !t.isSupported then .error (.unsupported t)
  else if v.type ≠ t then .error (.mismatch t v.type)
  else .ok (L.cell v)

/-- **Reads a cell as a value** of the given type. -/
def decode (L : Layout) (c : Cell) (t : CellType) : Except Fault Value :=
  match t with
  | .nominal _ => .error (.unsupported t)
  | .string => .ok (.string c)
  | .word w =>
    if c.length = w.width then .ok (.word (w.ofCode (LittleEndian.read (L.arrange c))))
    else .error (.malformed t w.width c.length)

theorem arrange_arrange (L : Layout) (bytes : List UInt8) :
    L.arrange (L.arrange bytes) = bytes := by
  cases L with
  | standard => exact List.reverse_reverse bytes
  | custom => rfl

theorem length_arrange (L : Layout) (bytes : List UInt8) :
    (L.arrange bytes).length = bytes.length := by
  cases L with
  | standard => exact List.length_reverse
  | custom => rfl

end Layout

end SortedTable
