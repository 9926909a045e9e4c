import Mathlib.Data.List.Basic
import SortedTable.Key.Text
import SortedTable.Proofs.Text.SelfDelimiting

/-!
# Reading keys back

What was written of a key can be read again, whatever stands behind it:
`SortedTable.Key.read?` hands back the key and the text that follows
(`SortedTable.Key.read?_chars_append`).

All of it rests on single bytes. A byte is written in one of three shapes, and the reader tells
them apart by looking ahead:

| the byte | is written as | the reader sees |
|---|---|---|
| has a short escape | a backslash and its letter | a backslash, then no `x` |
| is printable otherwise | itself | neither a backslash nor a quote |
| is none of the two | a backslash, `x` and two digits | a backslash, then an `x` |

The quote and the backslash have short escapes, so neither is ever written as itself. That is what
makes the second row true, and what lets the closing quote close.
-/

namespace SortedTable

namespace Key

variable {b : UInt8} {letter : Char}

/-! ### One byte -/

theorem shortEscaped?_of_shortEscape? (h : shortEscape? b = some letter) :
    shortEscaped? letter = some b := by
  have hbyte : ∀ c : UInt8, b.toNat = c.toNat → b = c := fun c hc => UInt8.toNat_inj.mp hc
  rw [shortEscape?] at h
  -- One goal for each of the six letters, with the number of the byte in the context.
  split at h <;> simp only [Option.some.injEq, reduceCtorEq] at h <;> subst h
  · rw [hbyte 0x09 ‹_›]; rfl
  · rw [hbyte 0x0D ‹_›]; rfl
  · rw [hbyte 0x0A ‹_›]; rfl
  · rw [hbyte 0x27 ‹_›]; rfl
  · rw [hbyte 0x22 ‹_›]; rfl
  · rw [hbyte 0x5C ‹_›]; rfl

theorem hexDigit?_digitChar : ∀ n < 16, hexDigit? (Nat.digitChar n) = some n := by decide

theorem toNat_ofNat_byte (b : UInt8) : (Char.ofNat b.toNat).toNat = b.toNat := by
  have hb : b.toNat < 256 := b.toNat_lt
  have hvalid : b.toNat.isValidChar := Or.inl (by omega)
  rw [Char.ofNat, dif_pos hvalid]
  rfl

/-- A byte without a short escape is not shown by the character of a byte with one. -/
theorem ofNat_ne_of_shortEscape? (hb : shortEscape? b = none) (c : UInt8)
    (hc : shortEscape? c ≠ none) : Char.ofNat b.toNat ≠ Char.ofNat c.toNat := by
  intro h
  have hnat : b.toNat = c.toNat := by rw [← toNat_ofNat_byte, h, toNat_ofNat_byte]
  exact hc (UInt8.toNat_inj.mp hnat ▸ hb)

theorem readBytes?_letter (h : shortEscape? b = some letter) (rest : List Char) :
    readBytes? ('\\' :: letter :: rest) =
      (readBytes? rest).map fun read => (b :: read.1, read.2) := by
  have hletter : shortEscaped? letter = some b := shortEscaped?_of_shortEscape? h
  have hx : letter ≠ 'x' := by
    rintro rfl
    cases hletter
  rw [readBytes?.eq_4 letter rest fun _ _ _ heq _ => hx heq, hletter]
  cases readBytes? rest <;> rfl

theorem readBytes?_printable (hshort : shortEscape? b = none) (hb : isPrintable b = true)
    (rest : List Char) :
    readBytes? (Char.ofNat b.toNat :: rest) =
      (readBytes? rest).map fun read => (b :: read.1, read.2) := by
  have hcode : (Char.ofNat b.toNat).toNat = b.toNat := toNat_ofNat_byte b
  have hquote : Char.ofNat b.toNat ≠ '"' := ofNat_ne_of_shortEscape? hshort 0x22 (by decide)
  have hslash : Char.ofNat b.toNat ≠ '\\' := ofNat_ne_of_shortEscape? hshort 0x5C (by decide)
  rw [readBytes?.eq_5 _ _ hquote (fun _ _ _ heq _ => hslash heq) fun _ _ heq _ => hslash heq,
    hcode, UInt8.ofNat_toNat, if_pos (by simp [hb, b.toNat_lt])]
  cases readBytes? rest <;> rfl

theorem readBytes?_hex (b : UInt8) (rest : List Char) :
    readBytes?
        ('\\' :: 'x' :: Nat.digitChar (b.toNat / 16) :: Nat.digitChar (b.toNat % 16) :: rest) =
      (readBytes? rest).map fun read => (b :: read.1, read.2) := by
  have hb : b.toNat < 256 := b.toNat_lt
  have hhigh : hexDigit? (Nat.digitChar (b.toNat / 16)) = some (b.toNat / 16) :=
    hexDigit?_digitChar _ (by omega)
  have hlow : hexDigit? (Nat.digitChar (b.toNat % 16)) = some (b.toNat % 16) :=
    hexDigit?_digitChar _ (by omega)
  have hbyte : UInt8.ofNat (16 * (b.toNat / 16) + b.toNat % 16) = b := by
    rw [Nat.div_add_mod, UInt8.ofNat_toNat]
  rw [readBytes?, hhigh, hlow]
  simp only [Option.bind_eq_bind, Option.bind_some, hbyte]
  cases readBytes? rest <;> rfl

/-- **The three shapes of a byte**: a short escape, the character itself, or two digits. -/
theorem escape_cases (b : UInt8) :
    (∃ letter, shortEscape? b = some letter ∧ escape b = ['\\', letter]) ∨
      (shortEscape? b = none ∧ isPrintable b = true ∧ escape b = [Char.ofNat b.toNat]) ∨
      escape b = ['\\', 'x', Nat.digitChar (b.toNat / 16), Nat.digitChar (b.toNat % 16)] := by
  rw [escape]
  cases hshort : shortEscape? b with
  | some letter => exact Or.inl ⟨letter, rfl, rfl⟩
  | none =>
    by_cases hb : isPrintable b = true
    · exact Or.inr (Or.inl ⟨rfl, hb, if_pos hb⟩)
    · exact Or.inr (Or.inr (if_neg hb))

/-- **A byte is read as it was written**, and the rest of the text after it. -/
theorem readBytes?_escape_append (b : UInt8) (rest : List Char) :
    readBytes? (escape b ++ rest) =
      (readBytes? rest).map fun read => (b :: read.1, read.2) := by
  rcases escape_cases b with ⟨letter, hshort, h⟩ | ⟨hshort, hb, h⟩ | h
  · rw [h]
    exact readBytes?_letter hshort rest
  · rw [h]
    exact readBytes?_printable hshort hb rest
  · rw [h]
    exact readBytes?_hex b rest

/-! ### A whole key -/

theorem readBytes?_flatMap_escape (bytes : List UInt8) (rest : List Char) :
    readBytes? (bytes.flatMap escape ++ '"' :: rest) = some (bytes, rest) := by
  induction bytes with
  | nil => rfl
  | cons b bytes ih =>
    rw [List.flatMap_cons, List.append_assoc, readBytes?_escape_append, ih]
    rfl

/-- **A key is read as it was written**, and nothing of the text behind it is used up. -/
theorem read?_chars_append (k : Key) (rest : List Char) :
    read? (k.chars ++ rest) = some (k, rest) := by
  have hread := readBytes?_flatMap_escape k.bytes rest
  rw [chars, List.cons_append, List.cons_append, read?, List.append_assoc, List.singleton_append,
    hread]
  rfl

/-- **The text of a key is self-delimiting**: it ends where the reader stops. -/
theorem selfDelimiting_chars : SelfDelimiting chars :=
  .of_read read?_chars_append

end Key

end SortedTable
