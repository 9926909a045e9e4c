import SortedTable.Cell.Layout

/-!
# Writing and reading cells undo each other

A cell of a fixed width spells a number (`SortedTable.Layout.number`), most or least significant
byte first as the layout has it, and of one width every cell spells its own number. What a type
adds to this is a correspondence between its words and those numbers. So both directions are
settled away from the byte order, by comparing a word with the number that its cell spells.

| starting from | the other way round gives | theorem |
|---|---|---|
| a value | the value, bit for bit | `SortedTable.Layout.decode_cell` |
| a cell that is read as no truth value | the cell | `SortedTable.Layout.cell_of_decode` |
| a cell that is read as a truth value | the truth cell of it | `SortedTable.Layout.cell_bool` |

The third row is an exception to the second. Truth values have two numbers only, while a cell of
their width can spell any other, and all of those read as true. Reading such a cell and writing it
again puts the one cell in its place that stands for true in this layout, and from then on nothing
changes any more.
-/

namespace SortedTable

/-- Bytes spell 0 only if all of them are 0. -/
theorem LittleEndian.read_eq_zero_iff {bytes : List UInt8} :
    read bytes = 0 ↔ bytes.all (· == 0) = true := by
  induction bytes with
  | nil => simp [read]
  | cons b rest ih =>
    have hb : b.toNat = 0 ↔ b = 0 := UInt8.toNat_inj (b := 0)
    rw [read, List.all_cons, Bool.and_eq_true, beq_iff_eq, ← ih, ← hb]
    omega

/-- The type of a value has a layout. -/
theorem Value.isSupported_type (v : Value) : v.type.isSupported = true := by
  cases v <;> rfl

namespace Layout

variable {L : Layout} {t : CellType} {v : Value} {c : Cell}

/-! ### The number a cell spells -/

/-- **The number that a cell spells** in the byte order of the layout. -/
def number (L : Layout) (c : Cell) : Nat := LittleEndian.read (L.arrange c)

/-- The cell of a word is as wide as its type. -/
theorem length_cell_word (L : Layout) (w : Word) : (L.cell (.word w)).length = w.type.width := by
  rw [cell, length_arrange, LittleEndian.length_write]

/-- **The cell of a word spells its code.** -/
theorem number_cell (L : Layout) (w : Word) : L.number (L.cell (.word w)) = w.code := by
  rw [number, cell, arrange_arrange, LittleEndian.read_write, Nat.mod_eq_of_lt w.code_lt]

theorem number_lt (L : Layout) (c : Cell) : L.number c < LittleEndian.capacity c.length := by
  have h := LittleEndian.read_lt (L.arrange c)
  rwa [length_arrange] at h

/-- A cell can be written from its width and the number it spells. -/
theorem arrange_write_number (L : Layout) (c : Cell) :
    L.arrange (LittleEndian.write c.length (L.number c)) = c := by
  rw [number, ← length_arrange L c, LittleEndian.write_read, arrange_arrange]

/-- **A cell is the cell of the word** whose width it has and whose code it spells. -/
theorem cell_word_eq {w : Word} (hlength : c.length = w.type.width)
    (hnumber : L.number c = w.code) : L.cell (.word w) = c := by
  rw [cell, ← hlength, ← hnumber, arrange_write_number]

/-- A cell spells 0 in either layout if all its bytes are 0, and otherwise in none. -/
theorem number_eq_zero_iff : L.number c = 0 ↔ c.all (· == 0) = true := by
  rw [number, LittleEndian.read_eq_zero_iff]
  cases L with
  | standard => rw [arrange, List.all_reverse]
  | custom => rfl

/-! ### What is written and what is read -/

/-- **Writing succeeds exactly at the type of the value**, and gives its cell. -/
theorem encode_eq_ok_iff : L.encode v t = .ok c ↔ v.type = t ∧ L.cell v = c := by
  by_cases ht : v.type = t
  · subst ht
    rw [encode, v.isSupported_type]
    simp
  · rw [encode]
    refine iff_of_false ?_ fun h => ht h.1
    cases t.isSupported <;> simp [ht]

theorem encode_type (L : Layout) (v : Value) : L.encode v v.type = .ok (L.cell v) :=
  encode_eq_ok_iff.mpr ⟨rfl, rfl⟩

/-- **Reading a word** takes a cell of its width and the number the cell spells. -/
theorem decode_word_eq_ok_iff {w : WordType} : L.decode c (.word w) = .ok v ↔
    c.length = w.width ∧ v = .word (w.ofCode (L.number c)) := by
  rw [decode, number]
  by_cases hlength : c.length = w.width
  · simp [hlength, eq_comm]
  · simp [hlength]

/-- What is read is a value of the type asked for. -/
theorem type_of_decode (h : L.decode c t = .ok v) : v.type = t := by
  cases t with
  | word w =>
    obtain ⟨-, rfl⟩ := decode_word_eq_ok_iff.mp h
    exact congrArg CellType.word (w.type_ofCode _)
  | string =>
    cases h
    rfl
  | nominal n => cases h

/-- **The cell of a value reads as the value.** -/
theorem decode_cell (L : Layout) (v : Value) : L.decode (L.cell v) v.type = .ok v := by
  cases v with
  | word w =>
    refine decode_word_eq_ok_iff.mpr ⟨length_cell_word L w, ?_⟩
    rw [number_cell, w.ofCode_code]
  | string bytes => rfl

/-- Whatever was written reads back. -/
theorem decode_of_encode (h : L.encode v t = .ok c) : L.decode c t = .ok v := by
  obtain ⟨rfl, rfl⟩ := encode_eq_ok_iff.mp h
  exact decode_cell L v

/-- **A cell is the cell of what it reads as**, unless that is a truth value. -/
theorem cell_of_decode (ht : t ≠ .word .bool) (h : L.decode c t = .ok v) : L.cell v = c := by
  cases t with
  | word w =>
    obtain ⟨hlength, rfl⟩ := decode_word_eq_ok_iff.mp h
    have hfits : L.number c < LittleEndian.capacity w.width := hlength ▸ number_lt L c
    refine cell_word_eq ?_ ?_
    · rw [w.type_ofCode, hlength]
    · exact (WordType.code_ofCode (fun hw => ht (congrArg CellType.word hw)) hfits).symm
  | string =>
    cases h
    rfl
  | nominal n => cases h

/-! ### Truth values -/

/-- The cell that stands for a truth value: 0 or 1 in four bytes. -/
def truthCell : Layout → Bool → Cell
  | standard, b => [0, 0, 0, b.toUInt8]
  | custom, b => [b.toUInt8, 0, 0, 0]

theorem cell_bool (L : Layout) (b : Bool) : L.cell (.word (.bool b)) = L.truthCell b := by
  cases L <;> cases b <;> rfl

/-- **A cell reads as true unless all its bytes are 0.** -/
theorem decode_bool_eq_ok_iff : L.decode c (.word .bool) = .ok v ↔
    c.length = 4 ∧ v = .word (.bool !(c.all (· == 0))) := by
  have hzero : (L.number c == 0) = c.all (· == 0) :=
    Bool.eq_iff_iff.mpr (beq_iff_eq.trans number_eq_zero_iff)
  rw [decode_word_eq_ok_iff, WordType.width, WordType.ofCode, bne, hzero]

/-- Truth values are written as truth cells and as nothing else. -/
theorem encode_eq_ok_self_iff (h : L.decode c (.word .bool) = .ok v) :
    L.encode v (.word .bool) = .ok c ↔ ∃ b, c = L.truthCell b := by
  obtain ⟨-, rfl⟩ := decode_bool_eq_ok_iff.mp h
  rw [encode_eq_ok_iff, cell_bool]
  constructor
  · rintro ⟨-, hc⟩
    exact ⟨_, hc.symm⟩
  · rintro ⟨b, rfl⟩
    -- The truth cell of `b` has been read, and it reads as `b`.
    have hread : L.decode (L.truthCell b) (.word .bool) = .ok (.word (.bool b)) := by
      rw [← cell_bool]
      exact decode_cell L _
    obtain hb := Except.ok.inj (h.symm.trans hread)
    refine ⟨rfl, ?_⟩
    rw [← cell_bool, hb, cell_bool]

/-! ### Both directions -/

/-- **What is written reads back bit for bit.** In either layout and at every type that has values,
writing a value of the type succeeds, and reading the cell gives the same value again. The cell is
as long as the type says where it says so; a byte string is its own cell. -/
theorem encode_then_decode (L : Layout) {t : CellType} {v : Value} (hv : v.type = t) :
    ∃ c, L.encode v t = .ok c ∧ L.decode c t = .ok v ∧
      (∀ width, t.width? = some width → c.length = width) ∧
      ∀ bytes, v = .string bytes → c = bytes := by
  subst hv
  refine ⟨L.cell v, encode_type L v, decode_cell L v, fun width hwidth => ?_, ?_⟩
  · cases v with
    | word w =>
      rw [length_cell_word]
      exact Option.some.inj hwidth
    | string bytes => cases hwidth
  · rintro bytes rfl
    rfl

/-- A signalling NaN with a payload, least significant byte first. -/
theorem encode_then_decode_nan :
    let nan : Value := .word (.double 0x7FF0000000000001)
    nan.type = .word .double ∧ (∃ c, custom.encode nan (.word .double) = .ok c ∧
      custom.decode c (.word .double) = .ok nan ∧ c.length = 8) ∧
      custom.cell nan = [1, 0, 0, 0, 0, 0, 0xF0, 0x7F] := by
  intro nan
  obtain ⟨c, hencode, hdecode, hlength, -⟩ := encode_then_decode custom (v := nan) rfl
  exact ⟨rfl, ⟨c, hencode, hdecode, hlength 8 rfl⟩, by decide⟩

/-- **What is read writes back**, to the last byte at every type but one. A truth value is written
as the truth cell of the layout, so the cell it was read from comes back exactly if it was a truth
cell before. In every case the cell that is written reads as the same value; so reading and writing
a second time changes nothing more. -/
theorem decode_then_encode (L : Layout) {t : CellType} {c : Cell} {v : Value}
    (h : L.decode c t = .ok v) :
    (t ≠ .word .bool → L.encode v t = .ok c) ∧
      (t = .word .bool → c.length = 4 ∧
        L.encode v t = .ok (if c.all (· == 0) then L.truthCell false else L.truthCell true) ∧
        (L.encode v t = .ok c ↔ ∃ b, c = L.truthCell b)) ∧
      ∃ c', L.encode v t = .ok c' ∧ L.decode c' t = .ok v := by
  have htype : v.type = t := type_of_decode h
  refine ⟨fun ht => encode_eq_ok_iff.mpr ⟨htype, cell_of_decode ht h⟩, ?_, L.cell v, ?_, ?_⟩
  · rintro rfl
    obtain ⟨hlength, hv⟩ := decode_bool_eq_ok_iff.mp h
    refine ⟨hlength, encode_eq_ok_iff.mpr ⟨htype, ?_⟩, encode_eq_ok_self_iff h⟩
    rw [hv, cell_bool]
    cases c.all (· == 0) <;> rfl
  · exact encode_eq_ok_iff.mpr ⟨htype, rfl⟩
  · exact htype ▸ decode_cell L v

/-- A cell that spells 2 in one layout and a large number in the other. Either way it reads as true
and is not what is written for true; as an integer it is written again as it was. -/
theorem decode_then_encode_nonzero :
    let c : Cell := [0, 0, 0, 2]
    let yes : Value := .word (.bool true)
    standard.decode c (.word .bool) = .ok yes ∧ custom.decode c (.word .bool) = .ok yes ∧
      standard.encode yes (.word .bool) = .ok [0, 0, 0, 1] ∧
      custom.encode yes (.word .bool) = .ok [1, 0, 0, 0] ∧
      custom.encode (.word (.int32 0x02000000)) (.word .int32) = .ok c := by
  intro c yes
  have hstandard : standard.decode c (.word .bool) = .ok yes := rfl
  have hcustom : custom.decode c (.word .bool) = .ok yes := rfl
  have hint : custom.decode c (.word .int32) = .ok (.word (.int32 0x02000000)) := rfl
  exact ⟨hstandard, hcustom, ((decode_then_encode standard hstandard).2.1 rfl).2.1,
    ((decode_then_encode custom hcustom).2.1 rfl).2.1,
    (decode_then_encode custom hint).1 (by decide)⟩

end Layout

end SortedTable
