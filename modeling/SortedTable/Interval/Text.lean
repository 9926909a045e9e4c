import SortedTable.Interval.Basic
import SortedTable.Key.Text

/-!
# The text of an interval

Interval notation: a square bracket where an end takes its key in, a round one where it leaves it
out or is unbounded, and `()` for the interval that was found to hold nothing.
-/

namespace SortedTable

namespace Interval

/-- The characters of a lower end, its bracket first. -/
def lowerChars : Endpoint Key → List Char
  | .unbounded => "(-inf".toList
  | .inclusive k => '[' :: k.chars
  | .exclusive k => '(' :: k.chars

/-- The characters of an upper end, its bracket last. -/
def upperChars : Endpoint Key → List Char
  | .unbounded => "+inf)".toList
  | .inclusive k => k.chars ++ [']']
  | .exclusive k => k.chars ++ [')']

/-- The characters that show an interval. -/
def chars : Interval → List Char
  | empty => "()".toList
  | between lower upper => lowerChars lower ++ ", ".toList ++ upperChars upper

/-- **The text of an interval**, such as `[b"a", b"c")`. -/
def text (I : Interval) : String := String.ofList I.chars

/-- What is said of bounds that hold nothing. -/
def StartPastEnd.message (e : StartPastEnd) : String :=
  "invalid row range: start " ++ e.start.text ++ " is past end " ++ e.stop.text

end Interval

end SortedTable
