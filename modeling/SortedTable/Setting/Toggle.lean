import SortedTable.Cell.Layout
import SortedTable.Text.Blank

/-!
# The layout toggle

Which layout a program uses is set from outside, by an environment variable. The variable holds
bytes. It selects the custom layout if they spell, in UTF-8, one of a few words for "on", in any
mixture of upper and lower case and with any blank characters around it. In every other case the
standard layout stands: where the variable is unset, where it holds another text, and where its
bytes are no text at all.

Case is a matter of ASCII letters only. No letter outside ASCII counts as one of the letters of a
word, whatever its lower case is.
-/

namespace SortedTable

namespace Toggle

/-- The environment variable that holds the toggle. -/
def variableName : String := "ROWSCOPE_CUSTOM_CODEC"

/-- The words that switch the custom layout on. -/
def words : List (List Char) := ["1".toList, "true".toList, "yes".toList, "on".toList]

/-- Whether a text switches the custom layout on. -/
def isOn (text : List Char) : Bool := words.contains ((Text.trim text).map Char.toLower)

/-- The text that some bytes spell in UTF-8, if they spell one. -/
def text? (raw : List UInt8) : Option (List Char) :=
  (String.fromUTF8? raw.toByteArray).map String.toList

/-- **The layout a value of the variable selects**; an unset variable has no value. -/
def layout (raw : Option (List UInt8)) : Layout :=
  match raw.bind text? with
  | some text => if isOn text then .custom else .standard
  | none => .standard

theorem layout_none : layout none = .standard := rfl

end Toggle

end SortedTable
