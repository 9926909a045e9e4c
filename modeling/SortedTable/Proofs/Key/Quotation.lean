import Mathlib.Algebra.Ring.Parity
import Mathlib.Data.List.DropRight
import SortedTable.Proofs.Key.ReadBack

/-!
# The text of a key, between its quotes

A key ends at its closing quote, and a key may hold quotes. What keeps the two apart are the
backslashes, and these are found in keys as well; so a quote is not told by the backslash in front
of it, but by how many there are. Read from the left, backslashes pair off, and of an odd number one
is left over, which escapes what follows (`SortedTable.Text.EscapesNext`).

A text can stand between quotes if all the quotes in it are escaped and the one behind it is not.
This is `SortedTable.Text.Quotable`, and the second half is what makes it a property of the parts: a
text that leaves nothing escaped behind it does not change what its successor escapes, so texts of
the kind can be written one after the other (`SortedTable.Text.Quotable.append`). Each byte of a key
is written as such a text, of one character, of two or of four, and so is the key.

The reader of keys stops at the same quote (`SortedTable.Key.read?_chars_append`). That is why
nothing needs to stand between a key and the text behind it, and why no text of a key begins with
another one.
-/

namespace SortedTable

/-! ### Quotes and backslashes -/

namespace Text

variable {c : Char} {u v : List Char}

/-- **A text escapes what follows it** if the backslashes at its end are odd in number. -/
def EscapesNext (cs : List Char) : Prop := Odd (cs.rtakeWhile (· == '\\')).length

theorem not_escapesNext_nil : ¬EscapesNext [] := by simp [EscapesNext]

/-- **One character more**: a backslash escapes what follows if it is not escaped itself. -/
theorem escapesNext_concat : EscapesNext (u ++ [c]) ↔ c = '\\' ∧ ¬EscapesNext u := by
  rw [EscapesNext, EscapesNext, List.rtakeWhile_concat]
  by_cases hc : c = '\\'
  · simp [hc, Nat.odd_add_one]
  · simp [hc]

/-- Where nothing is left escaped, one can start to read. -/
theorem escapesNext_append (hu : ¬EscapesNext u) : EscapesNext (u ++ v) ↔ EscapesNext v := by
  induction v using List.reverseRecOn with
  | nil => rw [List.append_nil, iff_false_left hu]; exact not_escapesNext_nil
  | append_singleton v c ih =>
    rw [← List.append_assoc, escapesNext_concat, escapesNext_concat, ih]

/-- **A text that can stand between quotes**: the quotes in it are escaped, and the one behind it is
not. -/
structure Quotable (cs : List Char) : Prop where
  /-- In front of a quote stands what escapes it. -/
  escapesNext : ∀ u v, cs = u ++ '"' :: v → EscapesNext u
  /-- A quote that follows is not escaped. -/
  not_escapesNext : ¬EscapesNext cs

namespace Quotable

/-- Without quotes and backslashes there is nothing to escape. -/
theorem of_notMem {cs : List Char} (hquote : '"' ∉ cs) (hslash : '\\' ∉ cs) : Quotable cs where
  escapesNext := by
    rintro u v rfl
    exact absurd (List.mem_append_right u List.mem_cons_self) hquote
  not_escapesNext := by
    rcases cs.eq_nil_or_concat' with rfl | ⟨u, c, rfl⟩
    · exact not_escapesNext_nil
    · rw [escapesNext_concat]
      rintro ⟨rfl, -⟩
      exact hslash (List.mem_append_right u (List.mem_singleton_self _))

/-- A backslash and whatever it escapes. -/
theorem escaped (c : Char) : Quotable ['\\', c] where
  escapesNext := by
    intro u v h
    rcases u with _ | ⟨d, u⟩
    · exact absurd (List.cons.inj h).1 (by decide)
    · obtain ⟨rfl, hu⟩ := List.cons.inj h
      rcases u with _ | ⟨d, u⟩
      · exact escapesNext_concat.mpr ⟨rfl, not_escapesNext_nil⟩
      · simp at hu
  not_escapesNext := by
    have hslash : EscapesNext ['\\'] := escapesNext_concat.mpr ⟨rfl, not_escapesNext_nil⟩
    exact fun h => (escapesNext_concat (u := ['\\']).mp h).2 hslash

/-- **Texts that can stand between quotes can be written one after the other.** -/
theorem append (hu : Quotable u) (hv : Quotable v) : Quotable (u ++ v) where
  escapesNext := by
    intro w w' h
    -- The quote lies in the first text or in the second one.
    rcases List.append_eq_append_iff.mp h with ⟨m, rfl, hm⟩ | ⟨m, rfl, hm⟩
    · rw [escapesNext_append hu.not_escapesNext]
      exact hv.escapesNext m w' hm
    · rcases m with _ | ⟨d, m⟩
      · exact absurd (hv.escapesNext [] w' hm.symm) not_escapesNext_nil
      · obtain ⟨rfl, -⟩ := List.cons.inj hm
        exact hu.escapesNext w m rfl
  not_escapesNext := by
    rw [escapesNext_append hu.not_escapesNext]
    exact hv.not_escapesNext

theorem flatMap {α : Type} {write : α → List Char} (hwrite : ∀ a, Quotable (write a))
    (as : List α) : Quotable (as.flatMap write) := by
  induction as with
  | nil => exact of_notMem List.not_mem_nil List.not_mem_nil
  | cons a as ih =>
    rw [List.flatMap_cons]
    exact (hwrite a).append ih

end Quotable

/-- The characters of ASCII that can be seen, and the space. -/
def IsPrintable (c : Char) : Prop := 0x20 ≤ c.toNat ∧ c.toNat ≤ 0x7E

instance (c : Char) : Decidable (IsPrintable c) :=
  inferInstanceAs (Decidable (0x20 ≤ c.toNat ∧ c.toNat ≤ 0x7E))

end Text

/-! ### Bytes and keys -/

namespace Key

variable {b : UInt8} {letter : Char}

theorem isPrintable_of_shortEscape? (h : shortEscape? b = some letter) :
    Text.IsPrintable letter := by
  rw [shortEscape?] at h
  split at h <;> simp only [Option.some.injEq, reduceCtorEq] at h <;> subst h <;> decide

theorem isPrintable_digitChar : ∀ n < 16, Text.IsPrintable (Nat.digitChar n) := by decide

theorem digitChar_ne : ∀ n < 16, Nat.digitChar n ≠ '"' ∧ Nat.digitChar n ≠ '\\' := by decide

/-- **A byte is written in printable characters.** -/
theorem isPrintable_of_mem_escape {c : Char} (hc : c ∈ escape b) : Text.IsPrintable c := by
  have hb : b.toNat < 256 := b.toNat_lt
  rcases escape_cases b with ⟨letter, hshort, h⟩ | ⟨-, hprint, h⟩ | h
  · rw [h, List.mem_pair] at hc
    rcases hc with rfl | rfl
    · decide
    · exact isPrintable_of_shortEscape? hshort
  · rw [h, List.mem_singleton] at hc
    obtain ⟨hspace, htilde⟩ := (Bool.and_eq_true _ _).mp hprint
    rw [hc, Text.IsPrintable, toNat_ofNat_byte]
    exact ⟨UInt8.le_iff_toNat_le.mp (of_decide_eq_true hspace),
      UInt8.le_iff_toNat_le.mp (of_decide_eq_true htilde)⟩
  · rw [h] at hc
    simp only [List.mem_cons, List.not_mem_nil, or_false] at hc
    rcases hc with rfl | rfl | rfl | rfl
    · decide
    · decide
    · exact isPrintable_digitChar _ (by omega)
    · exact isPrintable_digitChar _ (by omega)

/-- **What a byte is written as can stand between quotes.** -/
theorem quotable_escape (b : UInt8) : Text.Quotable (escape b) := by
  have hb : b.toNat < 256 := b.toNat_lt
  rcases escape_cases b with ⟨letter, -, h⟩ | ⟨hshort, -, h⟩ | h
  · rw [h]
    exact .escaped letter
  · have hquote : Char.ofNat b.toNat ≠ '"' := ofNat_ne_of_shortEscape? hshort 0x22 (by decide)
    have hslash : Char.ofNat b.toNat ≠ '\\' := ofNat_ne_of_shortEscape? hshort 0x5C (by decide)
    rw [h]
    exact .of_notMem (by simpa using hquote.symm) (by simpa using hslash.symm)
  · obtain ⟨hhighquote, hhighslash⟩ := digitChar_ne (b.toNat / 16) (by omega)
    obtain ⟨hlowquote, hlowslash⟩ := digitChar_ne (b.toNat % 16) (by omega)
    have hdigits : Text.Quotable [Nat.digitChar (b.toNat / 16), Nat.digitChar (b.toNat % 16)] :=
      .of_notMem (by simp [hhighquote.symm, hlowquote.symm])
        (by simp [hhighslash.symm, hlowslash.symm])
    rw [h]
    exact (Text.Quotable.escaped 'x').append hdigits

theorem toList_text (k : Key) : k.text.toList = k.chars := String.toList_ofList

/-- **The text of a key ends by itself.** Whatever follows two keys, the texts are the same only if
the keys are and what follows them is; and the reader finds the key and what follows it. All
characters in the text of a key are printable ones of ASCII. Between the letter with the opening
quote and the closing quote every quote is escaped, and the closing quote is not. -/
theorem text_ends_by_itself :
    (∀ (k j : Key) (u v : String), k.text ++ u = j.text ++ v ↔ k = j ∧ u = v) ∧
      (∀ (k : Key) (u : String), read? (k.text ++ u).toList = some (k, u.toList)) ∧
      ∀ k : Key, (∀ c ∈ k.text.toList, Text.IsPrintable c) ∧
        ∃ body, k.text = "b\"" ++ String.ofList body ++ "\"" ∧ Text.Quotable body := by
  refine ⟨fun k j u v => ?_, fun k u => ?_, fun k => ⟨?_, k.bytes.flatMap escape, ?_, ?_⟩⟩
  · constructor
    · intro h
      have hlist : k.chars ++ u.toList = j.chars ++ v.toList := by
        rw [← toList_text, ← toList_text, ← String.toList_append, h, String.toList_append]
      obtain ⟨hkey, hrest⟩ := selfDelimiting_chars hlist
      exact ⟨hkey, String.toList_inj.mp hrest⟩
    · rintro ⟨rfl, rfl⟩
      rfl
  · rw [String.toList_append, toList_text, read?_chars_append]
  · intro c hc
    rw [toList_text, chars] at hc
    simp only [List.mem_cons, List.mem_append, List.mem_flatMap, List.not_mem_nil,
      or_false] at hc
    rcases hc with rfl | rfl | ⟨b, -, hc⟩ | rfl
    · decide
    · decide
    · exact isPrintable_of_mem_escape hc
    · decide
  · have hbody : (String.ofList (k.bytes.flatMap escape)).toList = k.bytes.flatMap escape :=
      String.toList_ofList
    rw [← String.toList_inj, toList_text, String.toList_append, String.toList_append, hbody]
    rfl
  · exact .flatMap quotable_escape k.bytes

/-- A key of a quote, a backslash and a zero byte. Written twice, its text is read as the key with
its text behind it. -/
theorem text_ends_by_itself_quote :
    let k : Key := ⟨[0x22, 0x5C, 0x00]⟩
    k.text = "b\"\\\"\\\\\\x00\"" ∧ read? (k.text ++ k.text).toList = some (k, k.text.toList) ∧
      '\\' ∈ k.text.toList ∧ Text.IsPrintable '\\' := by
  intro k
  have hmem : '\\' ∈ k.text.toList := by decide
  exact ⟨by decide, text_ends_by_itself.2.1 k k.text, hmem,
    (text_ends_by_itself.2.2 k).1 _ hmem⟩

end Key

end SortedTable
