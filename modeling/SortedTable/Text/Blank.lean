/-!
# Blank characters

The characters of the Unicode property `White_Space`: the space, the line and page controls, and
the spaces of various widths. `SortedTable.Text.trim` removes them from both ends of a text and
leaves those inside alone.
-/

namespace SortedTable

namespace Text

/-- The stretches of code points with the property, ends included. -/
def blankRanges : List (Nat × Nat) :=
  [(0x09, 0x0D), (0x20, 0x20), (0x85, 0x85), (0xA0, 0xA0), (0x1680, 0x1680), (0x2000, 0x200A),
    (0x2028, 0x2029), (0x202F, 0x202F), (0x205F, 0x205F), (0x3000, 0x3000)]

/-- Whether a character is blank. -/
def isBlank (c : Char) : Bool :=
  blankRanges.any fun (first, last) => first ≤ c.toNat && c.toNat ≤ last

/-- Removes the blank characters at the front. -/
def trimFront (cs : List Char) : List Char := cs.dropWhile isBlank

/-- **Removes the blank characters at both ends.** -/
def trim (cs : List Char) : List Char := (trimFront (trimFront cs).reverse).reverse

end Text

end SortedTable
