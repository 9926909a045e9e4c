import SortedTable.Proofs.Cell.RoundTrip

/-!
# What is refused, and why

Writing and reading can each be refused for two reasons, and the first reason is the same for both:
the type asked for is not among the six that have a layout (`SortedTable.CellType.stored`). The
second reason depends on what is at hand. A value has a type of its own, and it has to be the one
asked for; a cell has only a length, and it has to be the width of the type, where the type has one.

| refused | because | theorem |
|---|---|---|
| writing and reading | the type has no layout | both of the following |
| writing | the value is of another type | `SortedTable.Layout.encode_eq_error_iff` |
| reading | the cell has another length | `SortedTable.Layout.decode_eq_error_iff` |

The first reason goes before the second one. A type without layout is no value's type, so every
value is of another type than it; the fault is that there is no layout, all the same. With reading
there is nothing to put first, since only types with a layout have a width.

That the six types are the same on both sides comes out at the end: a type is read from some cell
exactly if it is written for some value (`SortedTable.Layout.exists_decode_iff_exists_encode`).
-/

namespace SortedTable

namespace CellType

variable {t : CellType}

/-- **The types that have a layout.** -/
def stored : List CellType :=
  [.word .bool, .word .int32, .word .int64, .word .float, .word .double, .string]

theorem mem_stored_iff : t ∈ stored ↔ t.isSupported = true := by
  rcases t with w | _ | n
  · cases w <;> decide
  · decide
  · cases n <;> decide

/-- **The types that have a layout are those that have values.** -/
theorem exists_value_iff : (∃ v : Value, v.type = t) ↔ t ∈ stored := by
  rw [mem_stored_iff]
  constructor
  · rintro ⟨v, rfl⟩
    exact v.isSupported_type
  · intro h
    rcases t with w | _ | n
    · exact ⟨.word (w.ofCode 0), congrArg CellType.word (w.type_ofCode 0)⟩
    · exact ⟨.string [], rfl⟩
    · cases h

end CellType

namespace Layout

variable {L : Layout} {c : Cell} {t : CellType} {v : Value} {fault : Fault}

/-! ### The faults of writing -/

/-- **A value is not written** at a type without layout, nor at a type with one that is not its
own. -/
theorem encode_eq_error_iff : L.encode v t = .error fault ↔
    t ∉ CellType.stored ∧ fault = .unsupported t ∨
      (t ∈ CellType.stored ∧ v.type ≠ t) ∧ fault = .mismatch t v.type := by
  rw [encode, CellType.mem_stored_iff]
  by_cases hstored : t.isSupported = true
  · by_cases htype : v.type = t
    · simp [hstored, htype]
    · simp [hstored, htype, eq_comm]
  · simp [hstored, eq_comm]

/-- Whatever is not refused is written. -/
theorem exists_encode_iff : (∃ c, L.encode v t = .ok c) ↔ t ∈ CellType.stored ∧ v.type = t := by
  constructor
  · rintro ⟨c, hc⟩
    obtain ⟨rfl, -⟩ := encode_eq_ok_iff.mp hc
    exact ⟨CellType.exists_value_iff.mp ⟨v, rfl⟩, rfl⟩
  · rintro ⟨-, rfl⟩
    exact ⟨_, encode_type L v⟩

/-! ### The faults of reading -/

theorem decode_word_eq_error_iff {w : WordType} : L.decode c (.word w) = .error fault ↔
    c.length ≠ w.width ∧ fault = .malformed (.word w) w.width c.length := by
  rw [decode]
  by_cases hlength : c.length = w.width
  · simp [hlength]
  · simp [hlength, eq_comm]

/-- **A cell is not read** at a type without layout, nor at a type whose width is not its length. -/
theorem decode_eq_error_iff : L.decode c t = .error fault ↔
    t ∉ CellType.stored ∧ fault = .unsupported t ∨
      ∃ width, (t.width? = some width ∧ width ≠ c.length) ∧
        fault = .malformed t width c.length := by
  rw [CellType.mem_stored_iff]
  rcases t with w | _ | n
  · rw [decode_word_eq_error_iff]
    constructor
    · rintro ⟨hlength, rfl⟩
      exact Or.inr ⟨w.width, ⟨rfl, hlength.symm⟩, rfl⟩
    · rintro (⟨hnone, -⟩ | ⟨width, ⟨hwidth, hlength⟩, rfl⟩)
      · exact absurd rfl hnone
      · obtain rfl := Option.some.inj hwidth
        exact ⟨hlength.symm, rfl⟩
  · simp [decode, CellType.isSupported, CellType.width?]
  · simp [decode, CellType.isSupported, CellType.width?, eq_comm]

/-- **Whatever is not refused is read**, as a value of the type. -/
theorem exists_decode_iff : (∃ v, L.decode c t = .ok v ∧ v.type = t) ↔
    t ∈ CellType.stored ∧ ¬∃ width, t.width? = some width ∧ width ≠ c.length := by
  rcases hresult : L.decode c t with fault | v
  · refine iff_of_false (by simp) ?_
    rintro ⟨hstored, hwidth⟩
    rcases decode_eq_error_iff.mp hresult with ⟨hnone, -⟩ | ⟨width, hother, -⟩
    · exact hnone hstored
    · exact hwidth ⟨width, hother⟩
  · have htype : v.type = t := type_of_decode hresult
    refine iff_of_true ⟨v, rfl, htype⟩ ⟨CellType.exists_value_iff.mp ⟨v, htype⟩, ?_⟩
    rintro ⟨width, hother⟩
    have hrefused : L.decode c t = .error (.malformed t width c.length) :=
      decode_eq_error_iff.mpr (Or.inr ⟨width, hother, rfl⟩)
    cases hresult.symm.trans hrefused

/-! ### Both -/

/-- **What can be read can be written**, and the other way round. -/
theorem exists_decode_iff_exists_encode :
    (∃ c v, L.decode c t = .ok v) ↔ ∃ v c, L.encode v t = .ok c := by
  constructor
  · rintro ⟨c, v, hv⟩
    exact ⟨v, L.cell v, encode_eq_ok_iff.mpr ⟨type_of_decode hv, rfl⟩⟩
  · rintro ⟨v, c, hc⟩
    exact ⟨c, v, decode_of_encode hc⟩

/-- **Faults tell their reasons, and there are no others.** In either layout, reading is refused
for want of a layout exactly if the type is none of the six that have one; for the length of the
cell exactly if the type has a width and the cell has another, and the fault tells both; and in all
other cases it gives a value of the type. Writing is refused for want of a layout exactly if the
type has none, whatever the value; for the type of the value exactly if the type asked for has a
layout and the value is of another type, and the fault tells both; and in all other cases it
succeeds. So a type can be read from some cell exactly if it can be written for some value. -/
theorem faults_tell_reasons (L : Layout) :
    (∀ (c : Cell) (t : CellType),
        (L.decode c t = .error (.unsupported t) ↔ t ∉ CellType.stored) ∧
        (∀ width, L.decode c t = .error (.malformed t width c.length) ↔
          t.width? = some width ∧ width ≠ c.length) ∧
        ((∃ v, L.decode c t = .ok v ∧ v.type = t) ↔
          t ∈ CellType.stored ∧ ¬∃ width, t.width? = some width ∧ width ≠ c.length)) ∧
      (∀ (v : Value) (t : CellType),
        (L.encode v t = .error (.unsupported t) ↔ t ∉ CellType.stored) ∧
        (L.encode v t = .error (.mismatch t v.type) ↔ t ∈ CellType.stored ∧ v.type ≠ t) ∧
        ((∃ c, L.encode v t = .ok c) ↔ t ∈ CellType.stored ∧ v.type = t)) ∧
      ∀ t, (∃ c v, L.decode c t = .ok v) ↔ ∃ v c, L.encode v t = .ok c := by
  refine ⟨fun c t => ⟨?_, fun width => ?_, exists_decode_iff⟩,
    fun v t => ⟨?_, ?_, exists_encode_iff⟩, fun t => exists_decode_iff_exists_encode⟩
  · simp [decode_eq_error_iff]
  · simp [decode_eq_error_iff]
  · simp [encode_eq_error_iff]
  · simp [encode_eq_error_iff]

/-- A type without layout goes before everything else, and what it is asked of does not matter. -/
example :
    standard.decode [0, 0, 0] (.nominal .half) = .error (.unsupported (.nominal .half)) ∧
      standard.encode (.string []) (.nominal .half) = .error (.unsupported (.nominal .half)) ∧
      custom.decode [0, 0, 0] (.word .bool) = .error (.malformed (.word .bool) 4 3) ∧
      custom.encode (.string []) (.word .bool) = .error (.mismatch (.word .bool) .string) :=
  ⟨rfl, rfl, rfl, rfl⟩

end Layout

end SortedTable
