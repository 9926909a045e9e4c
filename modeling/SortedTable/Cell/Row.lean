import SortedTable.Cell.Layout

/-!
# Rows of words

Words need no length in front of them: whoever knows the types of a row can cut a buffer of cells
laid end to end. `SortedTable.Layout.joinCells` lays the cells of a list of words end to end,
`SortedTable.Layout.cutCells` cuts a buffer by a list of types, reads each piece, and returns with
the words whatever bytes are left over.
-/

namespace SortedTable

namespace Layout

/-- The cells of some words, end to end. -/
def joinCells (L : Layout) (words : List Word) : List UInt8 :=
  words.flatMap fun w => L.cell (.word w)

/-- Cuts a buffer from left to right into cells of the given types and reads them; what is left of
the buffer comes with the values. -/
def cutCells (L : Layout) : List WordType → List UInt8 → Except Fault (List Value × List UInt8)
  | [], buffer => .ok ([], buffer)
  | t :: types, buffer => do
    let v ← L.decode (buffer.take t.width) (.word t)
    let (values, rest) ← L.cutCells types (buffer.drop t.width)
    return (v :: values, rest)

end Layout

end SortedTable
