/-!
# Numbers as bytes

A number written as a fixed count of bytes, the least significant first, and read back. Bytes are
the digits of the number in base 256, so writing and reading undo each other: a number beyond
`SortedTable.LittleEndian.capacity` loses its upper digits (`SortedTable.LittleEndian.read_write`),
and bytes lose nothing (`SortedTable.LittleEndian.write_read`).

The other byte order is this one read backwards and needs no functions of its own.
-/

namespace SortedTable

namespace LittleEndian

/-- How many numbers so many bytes can tell apart. -/
def capacity : Nat → Nat
  | 0 => 1
  | width + 1 => 256 * capacity width

/-- The lowest `width` bytes of a number, the least significant first. -/
def write : Nat → Nat → List UInt8
  | 0, _ => []
  | width + 1, n => UInt8.ofNat (n % 256) :: write width (n / 256)

/-- The number whose bytes these are, the least significant first. -/
def read : List UInt8 → Nat
  | [] => 0
  | b :: rest => b.toNat + 256 * read rest

theorem length_write (width n : Nat) : (write width n).length = width := by
  induction width generalizing n with
  | zero => rfl
  | succ width ih => simp [write, ih]

/-- What was written reads back, but for what did not fit. -/
theorem read_write (width n : Nat) : read (write width n) = n % capacity width := by
  induction width generalizing n with
  | zero => simp [write, read, capacity, Nat.mod_one]
  | succ width ih =>
    have hb : n % 256 % 2 ^ 8 = n % 256 := Nat.mod_eq_of_lt (Nat.mod_lt n (by decide))
    rw [write, read, ih, UInt8.toNat_ofNat', hb, capacity, Nat.mod_mul]

/-- Bytes can hold no number that needs more of them. -/
theorem read_lt (l : List UInt8) : read l < capacity l.length := by
  induction l with
  | nil => simp [read, capacity]
  | cons b rest ih =>
    have hb : b.toNat < 256 := b.toNat_lt
    rw [read, List.length_cons, capacity]
    omega

/-- Bytes that were read can be written again. -/
theorem write_read (l : List UInt8) : write l.length (read l) = l := by
  induction l with
  | nil => rfl
  | cons b rest ih =>
    have hb : b.toNat < 256 := b.toNat_lt
    have hlow : (b.toNat + 256 * read rest) % 256 = b.toNat := by omega
    have hhigh : (b.toNat + 256 * read rest) / 256 = read rest := by omega
    rw [List.length_cons, write, read, hlow, hhigh, ih, UInt8.ofNat_toNat]

end LittleEndian

end SortedTable
