import SortedTable.Key.Basic

/-!
# The text of a key

A key is shown between quotes, after the letter `b`, in printable ASCII whatever its bytes are.
Six bytes have a short escape (tab, carriage return, line feed, both quotes and the backslash);
any other byte from the space to the tilde stands for itself; the rest are a backslash, an `x` and
two lowercase hexadecimal digits.

`SortedTable.Key.read?` goes the other way. It reads one key off the front of a text and hands
back what follows, so a key's text needs no separator after it.
-/

namespace SortedTable

namespace Key

/-! ### Writing -/

/-- The letter of the short escapes. -/
def shortEscape? (b : UInt8) : Option Char :=
  match b.toNat with
  | 0x09 => some 't'
  | 0x0D => some 'r'
  | 0x0A => some 'n'
  | 0x27 => some '\''
  | 0x22 => some '"'
  | 0x5C => some '\\'
  | _ => none

/-- Whether the byte is a printable ASCII character, the space among them. -/
def isPrintable (b : UInt8) : Bool := 0x20 ≤ b && b ≤ 0x7E

/-- The characters that show one byte. -/
def escape (b : UInt8) : List Char :=
  match shortEscape? b with
  | some letter => ['\\', letter]
  | none =>
    if isPrintable b then [Char.ofNat b.toNat]
    else ['\\', 'x', Nat.digitChar (b.toNat / 16), Nat.digitChar (b.toNat % 16)]

/-- The characters that show a key. -/
def chars (k : Key) : List Char := 'b' :: '"' :: (k.bytes.flatMap escape ++ ['"'])

/-- **The text of a key**, such as `b"row\x00"`. -/
def text (k : Key) : String := String.ofList k.chars

/-! ### Reading -/

/-- The byte a short escape stands for. -/
def shortEscaped? : Char → Option UInt8
  | 't' => some 0x09
  | 'r' => some 0x0D
  | 'n' => some 0x0A
  | '\'' => some 0x27
  | '"' => some 0x22
  | '\\' => some 0x5C
  | _ => none

/-- The value of a lowercase hexadecimal digit. -/
def hexDigit? (c : Char) : Option Nat :=
  if '0' ≤ c ∧ c ≤ '9' then some (c.toNat - '0'.toNat)
  else if 'a' ≤ c ∧ c ≤ 'f' then some (c.toNat - 'a'.toNat + 10)
  else none

/-- Reads escaped bytes up to the closing quote, and returns them with the text behind it. -/
def readBytes? : List Char → Option (List UInt8 × List Char)
  | [] => none
  | '"' :: rest => some ([], rest)
  | '\\' :: 'x' :: high :: low :: rest => do
    let h ← hexDigit? high
    let l ← hexDigit? low
    let (bytes, rest) ← readBytes? rest
    return (UInt8.ofNat (16 * h + l) :: bytes, rest)
  | '\\' :: letter :: rest => do
    let b ← shortEscaped? letter
    let (bytes, rest) ← readBytes? rest
    return (b :: bytes, rest)
  | c :: rest => do
    if isPrintable (UInt8.ofNat c.toNat) && c.toNat < 256 then
      let (bytes, rest) ← readBytes? rest
      return (UInt8.ofNat c.toNat :: bytes, rest)
    else none

/-- **Reads one key** off the front of a text, and returns it with the text behind it. -/
def read? : List Char → Option (Key × List Char)
  | 'b' :: '"' :: rest => (readBytes? rest).map fun (bytes, rest) => (⟨bytes⟩, rest)
  | _ => none

end Key

end SortedTable
