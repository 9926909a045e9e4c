/-!
# Versions of cells

A cell can be kept in several versions, each with the time it was written, in microseconds since
the start of 1970. A `SortedTable.VersionRule` says which of them a reader wants: the newest few,
or those written in a stretch of time.

Only the time can be judged from a single version, so the newest few admit any time and the
counting is left to the scan. A stretch of time runs up to, and not including, its stop; a stop at
time 0 stands for no stop at all.
-/

namespace SortedTable

/-- **Which versions of a cell a reader wants.** -/
inductive VersionRule
  /-- The newest versions, this many. -/
  | newest (count : UInt32)
  /-- The versions written from `start` on and before `stop`, or without end if `stop` is 0. -/
  | written (start stop : Int64)
  deriving DecidableEq, Repr

namespace VersionRule

/-- The newest version alone. -/
instance : Inhabited VersionRule := ⟨newest 1⟩

/-- **Whether a version written at this time passes**, as far as its time goes. -/
def admits : VersionRule → Int64 → Bool
  | newest _, _ => true
  | written start stop, time => decide (start ≤ time) && (stop == 0 || decide (time < stop))

/-- The characters that show the stop of a stretch of time. -/
def stopChars (stop : Int64) : List Char :=
  if stop = 0 then "+inf".toList else (Int.repr stop.toInt).toList

/-- The characters that show a rule. -/
def chars : VersionRule → List Char
  | newest count => "latest(".toList ++ (Nat.repr count.toNat).toList ++ ")".toList
  | written start stop =>
    "timestamp_range_micros[".toList ++ (Int.repr start.toInt).toList ++ ", ".toList ++
      stopChars stop ++ ")".toList

/-- **The text of a rule**, such as `latest(1)`. -/
def text (r : VersionRule) : String := String.ofList r.chars

end VersionRule

end SortedTable
