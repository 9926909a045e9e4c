import SortedTable.Interval.Text
import SortedTable.Selection.Basic

/-!
# The text of a selection

The entries in append order, a bar between two of them: a single key in braces, an interval in
interval notation. The empty selection is a pair of braces with nothing in it.
-/

namespace SortedTable

namespace Entry

/-- The characters that show an entry. -/
def chars : Entry → List Char
  | key k => '\x7b' :: (k.chars ++ ['\x7d'])
  | interval I => I.chars

/-- The text of an entry. -/
def text (e : Entry) : String := String.ofList e.chars

end Entry

namespace Selection

/-- The characters between two entries. -/
def bar : List Char := " | ".toList

/-- The characters that show the entries of a selection. -/
def entriesChars : List Entry → List Char
  | [] => []
  | [e] => e.chars
  | e :: rest => e.chars ++ bar ++ entriesChars rest

/-- The characters that show a selection. -/
def chars (S : Selection) : List Char :=
  if S.isEmpty then ['\x7b', '\x7d'] else entriesChars S.entries

/-- **The text of a selection.** -/
def text (S : Selection) : String := String.ofList S.chars

end Selection

end SortedTable
