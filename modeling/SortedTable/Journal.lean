import SortedTable.Cell.Layout

/-!
# The journal

What the library reports while it works, for whoever listens. It reports two kinds of thing: that a
cell was refused, with the fault that was the reason, and that the layout of the program was
settled. A record is one line: how serious it is, who reports it, what happened.

A refusal is reported where it is found. `SortedTable.Layout.encodeReported` and
`SortedTable.Layout.decodeReported` ask what the plain functions ask, in the same order, and
wherever these would only return a fault they put the event beside it. That nothing else comes of
it, and that what is reported is what is returned, is then a fact about them
(`SortedTable.Layout.encodeReported_eq`, `SortedTable.Layout.decodeReported_eq`). How much of the
events is shown is decided afterwards, by `SortedTable.Verbosity.lines`.
-/

namespace SortedTable

/-- What was being done with a cell. -/
inductive CellAction
  /-- A value was to be written. -/
  | encode
  /-- A cell was to be read. -/
  | decode
  deriving DecidableEq, Repr

/-- **Something worth reporting.** -/
inductive Event
  /-- A cell was refused. -/
  | rejected (action : CellAction) (fault : Fault)
  /-- The layout of the program was settled, from the named variable. -/
  | layoutResolved (layout : Layout) (source : String)
  deriving DecidableEq, Repr

/-- How serious a record is. -/
inductive Severity
  /-- Of interest when looking for a mistake. -/
  | debug
  /-- Of general interest. -/
  | info
  deriving DecidableEq, Repr

/-- How much of the journal is shown. A program that asks for errors only, or for warnings, is shown
as much as with `off`, since nothing in the journal is so serious; one that asks for traces as well
is shown as much as with `debug`, since nothing is less serious than that. -/
inductive Verbosity
  /-- Nothing. -/
  | off
  /-- What is of general interest. -/
  | info
  /-- Everything. -/
  | debug
  deriving DecidableEq, Repr

/-! ### Records -/

/-- Severities as they are written. -/
def Severity.name : Severity → String
  | debug => "DEBUG"
  | info => "INFO"

/-- Who reports. -/
def journalName : String := "rowscope"

/-- Actions as they are written. -/
def CellAction.name : CellAction → String
  | encode => "encode"
  | decode => "decode"

/-- A fault as the fields of a record: the types and numbers it names, and the reason. -/
def Fault.fields : Fault → String
  | unsupported t => "data_type=" ++ t.name ++ " reason=unsupported"
  | malformed t expected actual =>
    "data_type=" ++ t.name ++ " expected=" ++ Nat.repr expected ++ " actual=" ++
      Nat.repr actual ++ " reason=length"
  | mismatch expected actual =>
    "data_type=" ++ expected.name ++ " value_type=" ++ actual.name ++ " reason=mismatch"

namespace Event

/-- How serious an event is: a refused cell is a caller's affair, the settled layout is
everyone's. -/
def severity : Event → Severity
  | rejected _ _ => .debug
  | layoutResolved _ _ => .info

/-- What happened, as the fields of a record. -/
def fields : Event → String
  | rejected action fault => "event=" ++ action.name ++ "_rejected " ++ fault.fields
  | layoutResolved layout source =>
    "event=codec_strategy_resolved strategy=" ++ layout.name ++ " env=" ++ source

/-- The record of an event, such as `DEBUG rowscope event=…`. -/
def line (e : Event) : String := e.severity.name ++ " " ++ journalName ++ " " ++ e.fields

end Event

namespace Verbosity

/-- Whether records of a severity are shown. -/
def shows : Verbosity → Severity → Bool
  | off, _ => false
  | info, .info => true
  | info, .debug => false
  | debug, _ => true

/-- **The records that are shown of some events**, in their order. -/
def lines (v : Verbosity) (events : List Event) : List String :=
  (events.filter fun e => v.shows e.severity).map Event.line

end Verbosity

/-! ### Reporting on cells -/

/-- What there is to report of a result: nothing if it is a success. -/
def report {α : Type} (action : CellAction) : Except Fault α → List Event
  | .ok _ => []
  | .error fault => [.rejected action fault]

namespace Layout

/-- Writes a value as a cell, and reports why if it does not. -/
def encodeReported (L : Layout) (v : Value) (t : CellType) : Except Fault Cell × List Event :=
  if !t.isSupported then
    (.error (.unsupported t), [.rejected .encode (.unsupported t)])
  else if v.type ≠ t then
    (.error (.mismatch t v.type), [.rejected .encode (.mismatch t v.type)])
  else (.ok (L.cell v), [])

/-- Reads a cell as a value, and reports why if it does not. -/
def decodeReported (L : Layout) (c : Cell) (t : CellType) : Except Fault Value × List Event :=
  match t with
  | .nominal _ => (.error (.unsupported t), [.rejected .decode (.unsupported t)])
  | .string => (.ok (.string c), [])
  | .word w =>
    if c.length = w.width then (.ok (.word (w.ofCode (LittleEndian.read (L.arrange c)))), [])
    else
      (.error (.malformed t w.width c.length), [.rejected .decode (.malformed t w.width c.length)])

/-- **Writing with a report is writing**, and what is reported is why it was refused. -/
theorem encodeReported_eq (L : Layout) (v : Value) (t : CellType) :
    L.encodeReported v t = (L.encode v t, report .encode (L.encode v t)) := by
  rw [encodeReported, encode]
  split
  · rfl
  · split
    · rfl
    · rfl

/-- **Reading with a report is reading**, and what is reported is why it was refused. -/
theorem decodeReported_eq (L : Layout) (c : Cell) (t : CellType) :
    L.decodeReported c t = (L.decode c t, report .decode (L.decode c t)) := by
  cases t with
  | nominal n => rfl
  | string => rfl
  | word w =>
    rw [decodeReported, decode]
    split
    · rfl
    · rfl

end Layout

end SortedTable
