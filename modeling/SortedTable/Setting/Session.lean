import SortedTable.Journal
import SortedTable.Run
import SortedTable.Setting.Toggle

/-!
# The layout of a running program

The environment variable can change while a program runs, the layout of the program cannot: it is
read off the variable when it is first needed and stays what it was then, so that a cell written
early can be read late.

`SortedTable.Session` is the part of a running program that this concerns: what the variable holds
at the moment, and the layout if it is settled. Whoever asks for the setting itself gets what the
variable says now, and settles nothing.
-/

namespace SortedTable

/-- **A running program**, as far as its layout goes. -/
structure Session where
  /-- What the variable holds; nothing if it is unset. -/
  value : Option (List UInt8)
  /-- The layout of the program, once it is settled. -/
  resolved : Option Layout
  deriving DecidableEq, Repr

/-- One thing a program does. -/
inductive Action
  /-- Sets the variable to some bytes, or unsets it. -/
  | setVariable (raw : Option (List UInt8))
  /-- Reads the setting as it is now. -/
  | readSetting
  /-- Asks for the layout of the program. -/
  | askLayout
  /-- Writes a value in the layout of the program. -/
  | encode (v : Value) (t : CellType)
  /-- Reads a cell in the layout of the program. -/
  | decode (c : Cell) (t : CellType)
  deriving DecidableEq, Repr

/-- What the program gets for it. -/
inductive Reply
  /-- Nothing. -/
  | done
  /-- The layout that was asked for. -/
  | layout (L : Layout)
  /-- The cell, or why there is none. -/
  | cell (result : Except Fault Cell)
  /-- The value, or why there is none. -/
  | value (result : Except Fault Value)

namespace Session

/-- A program that has just started, with the variable unset. -/
def fresh : Session := ⟨none, none⟩

/-- What the variable selects now. -/
def setting (s : Session) : Layout := Toggle.layout s.value

/-- **The layout of the program.** The first to ask settles it, and that is reported. -/
def settle (s : Session) : Session × Layout × List Event :=
  match s.resolved with
  | some L => (s, L, [])
  | none =>
    (⟨s.value, some s.setting⟩, s.setting, [.layoutResolved s.setting Toggle.variableName])

/-- Does one thing, and reports. -/
def step (s : Session) : Action → Session × Reply × List Event
  | .setVariable raw => (⟨raw, s.resolved⟩, .done, [])
  | .readSetting => (s, .layout s.setting, [])
  | .askLayout =>
    let (s, L, events) := s.settle
    (s, .layout L, events)
  | .encode v t =>
    let (s, L, settled) := s.settle
    let (result, events) := L.encodeReported v t
    (s, .cell result, settled ++ events)
  | .decode c t =>
    let (s, L, settled) := s.settle
    let (result, events) := L.decodeReported c t
    (s, .value result, settled ++ events)

/-- **Does one thing after another**, and collects what the program gets and what is reported at
each step. -/
def run (s : Session) (as : List Action) : Session × List (Reply × List Event) :=
  runSteps step s as

end Session

end SortedTable
