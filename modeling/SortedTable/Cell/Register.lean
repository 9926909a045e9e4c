import SortedTable.Journal

/-!
# Working on one cell

Whoever goes back and forth between a cell and what it says keeps the two side by side. A
`SortedTable.Register` is such a pair: a cell, and a value once there is one. Writing replaces the
cell by the cell of the value, reading replaces the value by the value of the cell, each in a
layout and at a type that need not be those of the time before. What is refused changes nothing.
-/

namespace SortedTable

/-- **A cell and a value, side by side.** -/
structure Register where
  /-- The cell as it is now. -/
  cell : Cell
  /-- The value as it is now, if there ever was one. -/
  value : Option Value
  deriving DecidableEq, Repr

namespace Register

/-- A cell without bytes, and no value. -/
def blank : Register := ⟨[], none⟩

/-- Replaces the cell. -/
def setCell (r : Register) (c : Cell) : Register := ⟨c, r.value⟩

/-- Replaces the value. -/
def setValue (r : Register) (v : Value) : Register := ⟨r.cell, some v⟩

/-- Whether a value is the same as the one held, as far as values are compared. -/
def repeats (r : Register) (v : Value) : Bool :=
  match r.value with
  | some held => v.equals held
  | none => false

/-- **Writes the value into the cell**, and reports. Without a value there is nothing to write. -/
def write (r : Register) (L : Layout) (t : CellType) :
    Option (Register × Except Fault Cell × List Event) :=
  r.value.map fun v =>
    match L.encodeReported v t with
    | (.ok c, events) => (r.setCell c, .ok c, events)
    | (.error fault, events) => (r, .error fault, events)

/-- **Reads the value off the cell**, and reports. -/
def read (r : Register) (L : Layout) (t : CellType) :
    Register × Except Fault Value × List Event :=
  match L.decodeReported r.cell t with
  | (.ok v, events) => (r.setValue v, .ok v, events)
  | (.error fault, events) => (r, .error fault, events)

/-- A cell that is refused leaves the value what it was. -/
theorem read_of_error {r : Register} {L : Layout} {t : CellType} {fault : Fault}
    (h : L.decode r.cell t = .error fault) : (r.read L t).1 = r := by
  rw [read, Layout.decodeReported_eq, h]

end Register

end SortedTable
