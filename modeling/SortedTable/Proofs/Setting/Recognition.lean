import SortedTable.Proofs.Text.Trim
import SortedTable.Setting.Toggle

/-!
# What switches the custom layout on

The variable holds bytes, and it is read in three stages: the bytes are decoded, the text is trimmed
and lowered, and what is left is looked up among a few words. Each of the stages is undone here by
what its result can come from, and together they say which bytes switch the custom layout on,
without decoding anything. They are the bytes that are written when a word is spelled out with its
letters in any case and with blank characters on either side.

| stage | comes from | theorem |
|---|---|---|
| decoding | the bytes of the text | `SortedTable.Toggle.text?_eq_some_iff` |
| trimming | the text with blank characters at its ends | `SortedTable.Text.exists_eq_append_trim` |
| lowering | the text with its letters in any case | `SortedTable.Text.map_toLower_eq_iff` |

Bytes that are no text come from nothing, so they switch nothing on. The words themselves are those
of `SortedTable.Toggle.SaysOn`.
-/

namespace SortedTable

/-- The bytes that a text is written with, in UTF-8. -/
def Text.utf8 (text : List Char) : List UInt8 := text.flatMap String.utf8EncodeChar

namespace Toggle

variable {raw : Option (List UInt8)} {bytes : List UInt8} {text text' u v w : List Char}

/-! ### Decoding -/

/-- **The bytes that spell a text are those it is written with**, and no others. -/
theorem text?_eq_some_iff : text? bytes = some text ↔ bytes = Text.utf8 text := by
  have hencode : text.utf8Encode = (Text.utf8 text).toByteArray := rfl
  rw [← List.toByteArray_inj, ← hencode, ← String.toByteArray_ofList, text?,
    Option.map_eq_some_iff]
  constructor
  · rintro ⟨s, hs, rfl⟩
    rw [String.fromUTF8?] at hs
    split at hs
    · rw [← Option.some.inj hs, String.ofList_toList]
      rfl
    · cases hs
  · intro h
    have hvalid : bytes.toByteArray.IsValidUTF8 := h ▸ (String.ofList text).isValidUTF8
    refine ⟨String.ofList text, ?_, String.toList_ofList⟩
    rw [String.fromUTF8?, dif_pos hvalid, Option.some_inj, ← String.toByteArray_inj]
    exact h

/-! ### Words -/

/-- **The words for "on".** -/
def SaysOn (word : List Char) : Prop :=
  word = "1".toList ∨ word = "true".toList ∨ word = "yes".toList ∨ word = "on".toList

theorem mem_words_iff : w ∈ words ↔ SaysOn w := by simp [words, SaysOn]

/-- The words are lowered and have no blank characters at their ends. -/
theorem trim_map_toLower_of_saysOn (hw : SaysOn w) : Text.trim w = w ∧ w.map Char.toLower = w := by
  rcases hw with rfl | rfl | rfl | rfl <;> decide

/-- **A text switches the custom layout on** if it is one of the words, in any case and with any
blank characters around it. -/
theorem isOn_iff : isOn text = true ↔ ∃ u w v word, text = u ++ w ++ v ∧
    Text.Blank u ∧ Text.Blank v ∧ SaysOn word ∧ List.Forall₂ Text.SameLetter w word := by
  rw [isOn, List.contains_iff_mem, mem_words_iff]
  constructor
  · intro hword
    obtain ⟨u, v, hu, hv, htext⟩ := Text.exists_eq_append_trim text
    refine ⟨u, Text.trim text, v, _, htext, hu, hv, hword, ?_⟩
    exact Text.map_toLower_eq_iff.mp (trim_map_toLower_of_saysOn hword).2.symm
  · rintro ⟨u, w, v, word, rfl, hu, hv, hword, hletters⟩
    obtain ⟨htrim, hlower⟩ := trim_map_toLower_of_saysOn hword
    have hspelled : (Text.trim (u ++ w ++ v)).map Char.toLower = word := by
      calc (Text.trim (u ++ w ++ v)).map Char.toLower
        _ = (Text.trim w).map Char.toLower := by rw [Text.trim_append hu hv]
        _ = Text.trim (w.map Char.toLower) := Text.map_toLower_trim w
        _ = Text.trim (word.map Char.toLower) := by rw [Text.map_toLower_eq_iff.mpr hletters]
        _ = word := by rw [hlower, htrim]
    rw [hspelled]
    exact hword

/-- Blank characters around a text make no difference. -/
theorem isOn_append (hu : Text.Blank u) (hv : Text.Blank v) :
    isOn (u ++ text ++ v) = isOn text := by
  rw [isOn, isOn, Text.trim_append hu hv]

/-- The case of the letters makes no difference. -/
theorem isOn_eq_of_sameLetter (h : List.Forall₂ Text.SameLetter text text') :
    isOn text = isOn text' := by
  rw [isOn, isOn, Text.map_toLower_trim, Text.map_toLower_trim, Text.map_toLower_eq_iff.mpr h]

/-! ### The variable -/

/-- The variable holds a text if it holds the bytes the text is written with. -/
theorem bind_text?_eq_some_iff : raw.bind text? = some text ↔ raw = some (Text.utf8 text) := by
  simp only [Option.bind_eq_some_iff, text?_eq_some_iff, exists_eq_right]

/-- A text that switches the custom layout on has to be there. -/
theorem layout_eq_custom_iff :
    layout raw = .custom ↔ ∃ text, raw = some (Text.utf8 text) ∧ isOn text = true := by
  simp only [← bind_text?_eq_some_iff]
  rw [layout]
  rcases raw.bind text? with _ | text
  · simp
  · by_cases hon : isOn text = true
    · simp [hon]
    · simp [hon]

theorem layout_utf8 (text : List Char) :
    layout (some (Text.utf8 text)) = if isOn text then .custom else .standard := by
  rw [layout, bind_text?_eq_some_iff.mpr rfl]

/-- **The custom layout is selected by spelling a word out.** The variable selects it exactly if it
holds the bytes of a text that is one of the words, its letters in any case, with blank characters
and nothing else on either side; so an unset variable does not, and neither do bytes that are no
text. As for texts at large, blank characters on either side never change what is selected, and
neither does the case of the letters. -/
theorem layout_recognizes_words :
    (∀ raw, layout raw = .custom ↔ ∃ u w v word, raw = some (Text.utf8 (u ++ w ++ v)) ∧
        Text.Blank u ∧ Text.Blank v ∧ SaysOn word ∧ List.Forall₂ Text.SameLetter w word) ∧
      (∀ u text v, Text.Blank u → Text.Blank v →
        layout (some (Text.utf8 (u ++ text ++ v))) = layout (some (Text.utf8 text))) ∧
      ∀ text text', List.Forall₂ Text.SameLetter text text' →
        layout (some (Text.utf8 text)) = layout (some (Text.utf8 text')) := by
  refine ⟨fun raw => ?_, fun u text v hu hv => ?_, fun text text' hletters => ?_⟩
  · rw [layout_eq_custom_iff]
    constructor
    · rintro ⟨text, hraw, hon⟩
      obtain ⟨u, w, v, word, rfl, hspelled⟩ := isOn_iff.mp hon
      exact ⟨u, w, v, word, hraw, hspelled⟩
    · rintro ⟨u, w, v, word, hraw, hspelled⟩
      exact ⟨u ++ w ++ v, hraw, isOn_iff.mpr ⟨u, w, v, word, rfl, hspelled⟩⟩
  · rw [layout_utf8, layout_utf8, isOn_append hu hv]
  · rw [layout_utf8, layout_utf8, isOn_eq_of_sameLetter hletters]

/-- A word in mixed case, after a wide blank and before the end of the line. -/
theorem layout_recognizes_words_wide :
    let u := ['\u3000']
    let w := "YeS".toList
    let v := ['\n']
    Text.Blank u ∧ Text.Blank v ∧ SaysOn "yes".toList ∧
      List.Forall₂ Text.SameLetter w "yes".toList ∧
      layout (some (Text.utf8 (u ++ w ++ v))) = .custom ∧
      layout (some (Text.utf8 (u ++ w ++ v))) = layout (some (Text.utf8 w)) ∧
      layout (some (Text.utf8 w)) = layout (some (Text.utf8 "yes".toList)) := by
  intro u w v
  have hu : Text.Blank u := List.forall_mem_singleton.mpr (by decide)
  have hv : Text.Blank v := List.forall_mem_singleton.mpr (by decide)
  have hword : SaysOn "yes".toList := Or.inr (Or.inr (Or.inl rfl))
  have hletters : List.Forall₂ Text.SameLetter w "yes".toList := Text.map_toLower_eq_iff.mp rfl
  obtain ⟨hcustom, hblank, hcase⟩ := layout_recognizes_words
  exact ⟨hu, hv, hword, hletters, (hcustom _).mpr ⟨u, w, v, _, rfl, hu, hv, hword, hletters⟩,
    hblank u w v hu hv, hcase w _ hletters⟩

/-- The long s is another letter, blanks inside a word are kept, and a lone continuation byte is no
text. -/
example :
    layout (some (Text.utf8 "ye\u017F".toList)) = .standard ∧
      layout (some (Text.utf8 "o n".toList)) = .standard ∧
      layout (some [0x80, 0x31]) = .standard := by
  decide

end Toggle

end SortedTable
