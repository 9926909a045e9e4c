import Mathlib.Algebra.GroupWithZero.Nat
import Mathlib.Data.List.Basic
import SortedTable.Cell.Row
import SortedTable.Proofs.Cell.RoundTrip

/-!
# Rows of words need no lengths

A row of words is stored as its cells, end to end, and nothing says where one of them stops. Its
types do. Three numbers have to agree for that: the width of a type, the bytes that a word of the
type is written with, and the bytes that are asked for when it is read. The first two agree by
`SortedTable.Layout.length_cell_word`, the first and the third by
`SortedTable.Layout.exists_decode_take_iff`, which says that a slice can be read unless the buffer
ends in the middle of it. The rest is induction along the row.

Every buffer of the right length is cut into some row
(`SortedTable.Layout.exists_cutCells_iff`). It need not be the cells of that row, as far as it has
truth values in it: a truth value can be read from more than one cell, and is written as one only.
-/

namespace SortedTable

namespace Layout

variable {L : Layout} {t : WordType} {types : List WordType} {buffer rest : List UInt8}
  {values : List Value}

/-! ### One slice -/

/-- **A slice can be read if the buffer has bytes enough for it**, whatever they are. -/
theorem exists_decode_take_iff :
    (∃ v, L.decode (buffer.take t.width) (.word t) = .ok v) ↔ t.width ≤ buffer.length := by
  have hlength : (buffer.take t.width).length = t.width ↔ t.width ≤ buffer.length := by
    rw [List.length_take]
    omega
  rw [← hlength]
  constructor
  · rintro ⟨v, hv⟩
    exact (decode_word_eq_ok_iff.mp hv).1
  · intro h
    exact ⟨_, decode_word_eq_ok_iff.mpr ⟨h, rfl⟩⟩

theorem cutCells_cons_eq_ok_iff :
    L.cutCells (t :: types) buffer = .ok (values, rest) ↔
      ∃ v tail, L.decode (buffer.take t.width) (.word t) = .ok v ∧
        L.cutCells types (buffer.drop t.width) = .ok (tail, rest) ∧ values = v :: tail := by
  rw [cutCells]
  cases hv : L.decode (buffer.take t.width) (.word t) with
  | error fault => simp [bind, Except.bind]
  | ok v =>
    cases htail : L.cutCells types (buffer.drop t.width) with
    | error fault => simp [bind, Except.bind]
    | ok cut =>
      obtain ⟨tail, rest'⟩ := cut
      simp [bind, Except.bind, pure, Except.pure, and_comm, eq_comm]

/-! ### A row -/

/-- **The cells of some words are cut into those words**, and what follows them is left over. -/
theorem cutCells_joinCells_append (words : List Word) (rest : List UInt8) :
    L.cutCells (words.map Word.type) (L.joinCells words ++ rest) =
      .ok (words.map Value.word, rest) := by
  induction words with
  | nil => rfl
  | cons w words ih =>
    have hwidth : (L.cell (.word w)).length = w.type.width := length_cell_word L w
    have hbuffer : L.joinCells (w :: words) ++ rest =
        L.cell (.word w) ++ (L.joinCells words ++ rest) := by
      rw [joinCells, List.flatMap_cons, List.append_assoc]
      rfl
    rw [hbuffer]
    refine cutCells_cons_eq_ok_iff.mpr ⟨.word w, words.map Value.word, ?_, ?_, rfl⟩
    · rw [List.take_left' hwidth]
      exact decode_cell L (.word w)
    · rw [List.drop_left' hwidth]
      exact ih

/-- **A buffer is cut if it is long enough for all the types**, and what lies beyond their widths is
left over. -/
theorem exists_cutCells_iff : (∃ values, L.cutCells types buffer = .ok (values, rest)) ↔
    (types.map WordType.width).sum ≤ buffer.length ∧
      rest = buffer.drop (types.map WordType.width).sum := by
  induction types generalizing buffer with
  | nil => simp [cutCells, eq_comm]
  | cons t types ih =>
    have htail : (∃ tail, L.cutCells types (buffer.drop t.width) = .ok (tail, rest)) ↔
        (types.map WordType.width).sum ≤ buffer.length - t.width ∧
          rest = buffer.drop (t.width + (types.map WordType.width).sum) := by
      rw [ih, List.length_drop, List.drop_drop]
    rw [List.map_cons, List.sum_cons]
    constructor
    · rintro ⟨values, hvalues⟩
      obtain ⟨v, tail, hv, hcut, -⟩ := cutCells_cons_eq_ok_iff.mp hvalues
      have hslice : t.width ≤ buffer.length := exists_decode_take_iff.mp ⟨v, hv⟩
      obtain ⟨hlength, hrest⟩ := htail.mp ⟨tail, hcut⟩
      exact ⟨by omega, hrest⟩
    · rintro ⟨hlength, hrest⟩
      have hslice : t.width ≤ buffer.length := by omega
      obtain ⟨v, hv⟩ := (exists_decode_take_iff (L := L)).mpr hslice
      obtain ⟨tail, hcut⟩ := htail.mpr ⟨by omega, hrest⟩
      exact ⟨v :: tail, cutCells_cons_eq_ok_iff.mpr ⟨v, tail, hv, hcut, rfl⟩⟩

theorem mapM_encode (L : Layout) (words : List Word) :
    words.mapM (fun w => L.encode (.word w) (.word w.type)) =
      .ok (words.map fun w => L.cell (.word w)) := by
  have hencode : (fun w => L.encode (.word w) (.word w.type)) =
      fun w => (pure (L.cell (.word w)) : Except Fault Cell) := by
    funext w
    exact encode_type L (.word w)
  rw [hencode, List.mapM_pure]
  rfl

/-- **Rows of words need no lengths.** In either layout, the words of a row can all be written, and
their cells, laid end to end, are cut by the types of the row into the same words again, bit for
bit, with no byte left over. Any other buffer is cut by these types into words with no byte left
over exactly if it is as long as the types are wide together. -/
theorem rows_need_no_lengths (L : Layout) :
    (∀ words : List Word, ∃ cells,
        words.mapM (fun w => L.encode (.word w) (.word w.type)) = .ok cells ∧
          L.joinCells words = cells.flatten ∧
          L.cutCells (words.map Word.type) cells.flatten = .ok (words.map Value.word, [])) ∧
      ∀ (types : List WordType) (buffer : List UInt8),
        (∃ values, L.cutCells types buffer = .ok (values, [])) ↔
          buffer.length = (types.map WordType.width).sum := by
  refine ⟨fun words => ⟨_, mapM_encode L words, List.flatMap_def, ?_⟩, fun types buffer => ?_⟩
  · have hcut := cutCells_joinCells_append (L := L) words []
    rwa [List.append_nil, joinCells, List.flatMap_def] at hcut
  · rw [exists_cutCells_iff, eq_comm (a := ([] : List UInt8)), List.drop_eq_nil_iff]
    omega

/-- A buffer that ends one byte early: the truth value is read, the integer is refused. -/
example : standard.cutCells [.bool, .int64] (List.replicate 11 0) =
    .error (.malformed (.word .int64) 8 7) := rfl

end Layout

end SortedTable
