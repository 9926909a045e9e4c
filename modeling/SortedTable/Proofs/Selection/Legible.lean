import SortedTable.Proofs.Key.ReadBack
import SortedTable.Selection.Text

/-!
# What the text of a selection tells

The text of a selection is meant for people, and there is no reader for it in the library. It
still tells everything: two selections with the same text are the same, entry by entry, down to the
brackets and the bytes of the keys (`SortedTable.Selection.text_identifies`).

A key may hold any bytes, those among them that spell a bracket, a bar or a closing brace, so the
separators by themselves separate nothing. What does is that keys are read back whatever follows
them. From there on upwards each level is self-delimiting because the one below is.

| level | how its end is found |
|---|---|
| a key | by its closing quote |
| a lower end | its second letter tells whether there is a key, and then by the key |
| an upper end | its first letter tells, and the bracket is behind the key |
| an interval | its second letter tells whether there are ends, and then by the upper one |
| an entry | its first letter tells whether it is a key, and then by the key or the interval |

A selection is not self-delimiting, since another entry may always follow. But nothing follows a
selection. Its text is that of the first entry and then, for every other one, a bar and the entry
(`SortedTable.Selection.chars_cons`); and the text of the empty selection, the two braces, is the
beginning of no entry.
-/

namespace SortedTable

/-! ### Keys -/

namespace Key

/-- Behind a key, one letter more can be told as well. -/
theorem chars_append_singleton_inj {k j : Key} {c d : Char} {rest rest' : List Char}
    (h : k.chars ++ [c] ++ rest = j.chars ++ [d] ++ rest') : k = j ∧ c = d ∧ rest = rest' := by
  rw [List.append_assoc, List.append_assoc] at h
  obtain ⟨hkey, htail⟩ := selfDelimiting_chars h
  exact ⟨hkey, List.cons.inj htail⟩

end Key

/-! ### Intervals -/

namespace Interval

theorem selfDelimiting_lowerChars : SelfDelimiting lowerChars := by
  intro a b rest rest' h
  cases a <;> cases b
  case unbounded.unbounded => exact ⟨rfl, List.append_cancel_left h⟩
  case inclusive.inclusive k j =>
    obtain ⟨rfl, hrest⟩ := Key.selfDelimiting_chars (List.cons.inj h).2
    exact ⟨rfl, hrest⟩
  case exclusive.exclusive k j =>
    obtain ⟨rfl, hrest⟩ := Key.selfDelimiting_chars (List.cons.inj h).2
    exact ⟨rfl, hrest⟩
  -- Any two others differ in the bracket or in the letter right after it.
  all_goals simp [lowerChars, Key.chars] at h

theorem selfDelimiting_upperChars : SelfDelimiting upperChars := by
  intro a b rest rest' h
  cases a <;> cases b
  case unbounded.unbounded => exact ⟨rfl, List.append_cancel_left h⟩
  case inclusive.inclusive k j =>
    obtain ⟨rfl, -, hrest⟩ := Key.chars_append_singleton_inj h
    exact ⟨rfl, hrest⟩
  case exclusive.exclusive k j =>
    obtain ⟨rfl, -, hrest⟩ := Key.chars_append_singleton_inj h
    exact ⟨rfl, hrest⟩
  case inclusive.exclusive k j => exact absurd (Key.chars_append_singleton_inj h).2.1 (by decide)
  case exclusive.inclusive k j => exact absurd (Key.chars_append_singleton_inj h).2.1 (by decide)
  -- Of the others one is unbounded and shows a sign where the other shows a key.
  all_goals simp [upperChars, Key.chars] at h

/-- **The text of an interval is self-delimiting.** -/
theorem selfDelimiting_chars : SelfDelimiting chars := by
  intro I J rest rest' h
  rcases I with _ | ⟨lower, upper⟩ <;> rcases J with _ | ⟨lower', upper'⟩
  · exact ⟨rfl, List.append_cancel_left h⟩
  · cases lower' <;> simp [chars, lowerChars, Key.chars] at h
  · cases lower <;> simp [chars, lowerChars, Key.chars] at h
  · simp only [chars, List.append_assoc] at h
    obtain ⟨rfl, hmiddle⟩ := selfDelimiting_lowerChars h
    obtain ⟨rfl, hrest⟩ := selfDelimiting_upperChars (List.append_cancel_left hmiddle)
    exact ⟨rfl, hrest⟩

/-- An interval begins with a bracket and not with a brace. -/
theorem exists_chars_eq_cons (I : Interval) : ∃ c tail, I.chars = c :: tail ∧ c ≠ '\x7b' := by
  rcases I with _ | ⟨_ | k | k, upper⟩
  · exact ⟨'(', _, rfl, by decide⟩
  · exact ⟨'(', _, rfl, by decide⟩
  · exact ⟨'[', _, rfl, by decide⟩
  · exact ⟨'(', _, rfl, by decide⟩

end Interval

/-! ### Entries -/

namespace Entry

/-- **The text of an entry is self-delimiting.** -/
theorem selfDelimiting_chars : SelfDelimiting chars := by
  intro e e' rest rest' h
  rcases e with k | I <;> rcases e' with j | J
  · obtain ⟨rfl, -, hrest⟩ := Key.chars_append_singleton_inj (List.cons.inj h).2
    exact ⟨rfl, hrest⟩
  · obtain ⟨c, tail, hJ, hc⟩ := J.exists_chars_eq_cons
    rw [chars, chars, hJ] at h
    exact absurd (List.cons.inj h).1.symm hc
  · obtain ⟨c, tail, hI, hc⟩ := I.exists_chars_eq_cons
    rw [chars, chars, hI] at h
    exact absurd (List.cons.inj h).1 hc
  · obtain ⟨rfl, hrest⟩ := Interval.selfDelimiting_chars h
    exact ⟨rfl, hrest⟩

/-- The text of the empty selection begins no entry: behind a brace an entry has a key. -/
theorem chars_append_ne_braces (e : Entry) (rest : List Char) :
    e.chars ++ rest ≠ ['\x7b', '\x7d'] := by
  intro h
  rcases e with k | I
  · simp [chars, Key.chars] at h
  · obtain ⟨c, tail, hI, hc⟩ := I.exists_chars_eq_cons
    rw [chars, hI] at h
    exact hc (List.cons.inj h).1

end Entry

/-! ### Selections -/

namespace Selection

theorem entriesChars_cons (e : Entry) (es : List Entry) :
    entriesChars (e :: es) = e.chars ++ es.flatMap fun e => bar ++ e.chars := by
  induction es generalizing e with
  | nil => simp [entriesChars]
  | cons e' es ih =>
    calc entriesChars (e :: e' :: es)
      _ = e.chars ++ bar ++ entriesChars (e' :: es) := rfl
      _ = e.chars ++ (e' :: es).flatMap fun e => bar ++ e.chars := by
        rw [ih, List.flatMap_cons, List.append_assoc, List.append_assoc]

/-- **The text of a selection with entries**: the first entry, and then a bar and an entry for each
of the others. -/
theorem chars_cons (e : Entry) (es : List Entry) :
    chars ⟨e :: es⟩ = e.chars ++ es.flatMap fun e => bar ++ e.chars :=
  (if_neg Bool.false_ne_true).trans (entriesChars_cons e es)

theorem chars_injective : Function.Injective chars := by
  rintro ⟨es⟩ ⟨es'⟩ h
  rcases es with _ | ⟨e, es⟩ <;> rcases es' with _ | ⟨e', es'⟩
  · rfl
  · rw [chars_cons] at h
    exact absurd h.symm (e'.chars_append_ne_braces _)
  · rw [chars_cons] at h
    exact absurd h (e.chars_append_ne_braces _)
  · rw [chars_cons, chars_cons] at h
    obtain ⟨rfl, hrest⟩ := Entry.selfDelimiting_chars h
    have hbar : SelfDelimiting fun e : Entry => bar ++ e.chars :=
      Entry.selfDelimiting_chars.append_left bar
    have hne : ∀ e : Entry, bar ++ e.chars ≠ [] := fun e => List.cons_ne_nil _ _
    rw [hbar.flatMap_injective hne hrest]

/-- **The text of a selection identifies it.** Selections with the same text have the same entries
in the same order, with the same brackets and with keys of the same bytes; so have entries,
intervals and keys by themselves. Neither empty selections, intervals that hold nothing and
unbounded ends nor the bytes of a key, whatever they spell, make an exception. -/
theorem text_identifies :
    (∀ S T : Selection, S.text = T.text ↔ S = T) ∧ (∀ e f : Entry, e.text = f.text ↔ e = f) ∧
      (∀ I J : Interval, I.text = J.text ↔ I = J) ∧ ∀ k j : Key, k.text = j.text ↔ k = j := by
  refine ⟨fun S T => ?_, fun e f => ?_, fun I J => ?_, fun k j => ?_⟩
  · rw [text, text, String.ofList_inj, chars_injective.eq_iff]
  · rw [Entry.text, Entry.text, String.ofList_inj, Entry.selfDelimiting_chars.injective.eq_iff]
  · rw [Interval.text, Interval.text, String.ofList_inj,
      Interval.selfDelimiting_chars.injective.eq_iff]
  · rw [Key.text, Key.text, String.ofList_inj, Key.selfDelimiting_chars.injective.eq_iff]

/-- One key that spells the end of an entry, a bar and the beginning of another. Its quotes are
escaped, so this is not the text of two keys. -/
example : (⟨[.key ⟨[0x61, 0x22, 0x7D, 0x20, 0x7C, 0x20, 0x7B, 0x62, 0x22, 0x62]⟩]⟩ :
    Selection).text = "\x7bb\"a\\\"\x7d | \x7bb\\\"b\"\x7d" := by decide

end Selection

end SortedTable
