import SortedTable.Proofs.Cell.RoundTrip

/-!
# A cell read in the other layout

The two layouts differ in the order of the bytes of a word and in nothing else. So a word is written
in one of them as the reversed cell of the other (`SortedTable.Layout.reverse_cell_word`), and a
cell is read in one of them as the reversed cell is read in the other, refusals included, since
reversing a cell leaves its length what it was (`SortedTable.Layout.decode_reverse`).

A cell does not show which layout it was written in, and nothing stops a reader who takes the wrong
one: the length is right, and some value comes out
(`SortedTable.Layout.exists_decode_of_encode`). Is it the value that was written?

| the value | comes back | because |
|---|---|---|
| a byte string | always | there is no order to mistake |
| a truth value | always | whether all bytes are 0 can be told from either side |
| any other word | if its cell is a palindrome | any other reversed cell is that of another word |

The second row is `SortedTable.Layout.decode_bool_of_decode_bool`, the third one
`SortedTable.Layout.eq_iff_reverse_eq`.
-/

namespace SortedTable

namespace Layout

variable {L M : Layout} {c : Cell} {t : CellType} {u v : Value}

/-! ### Reversing the bytes -/

theorem arrange_reverse (L : Layout) (bytes : List UInt8) :
    L.arrange bytes.reverse = (L.arrange bytes).reverse := by
  cases L <;> rfl

/-- **Different layouts put bytes in opposite orders.** -/
theorem reverse_arrange (h : L ≠ M) (bytes : List UInt8) :
    (L.arrange bytes).reverse = M.arrange bytes := by
  cases L <;> cases M
  case standard.custom => exact List.reverse_reverse bytes
  case custom.standard => rfl
  all_goals exact absurd rfl h

/-- **The cell of a word in one layout is the reversed cell of the other.** -/
theorem reverse_cell_word (h : L ≠ M) (w : Word) :
    (L.cell (.word w)).reverse = M.cell (.word w) :=
  reverse_arrange h _

/-- A cell spells in one layout what the reversed cell spells in the other. -/
theorem number_reverse (h : L ≠ M) (c : Cell) : M.number c.reverse = L.number c := by
  rw [number, number, arrange_reverse, reverse_arrange h.symm]

/-- **A cell is read in one layout as the reversed cell is read in the other**, also where it is
refused. -/
theorem decode_reverse (h : L ≠ M) (c : Cell) (t : WordType) :
    M.decode c.reverse (.word t) = L.decode c (.word t) := by
  have hnumber : LittleEndian.read (M.arrange c.reverse) = LittleEndian.read (L.arrange c) :=
    number_reverse h c
  rw [decode, decode, hnumber, List.length_reverse]

/-! ### Writing in one layout and reading in the other -/

/-- **A cell that was written in one layout can be read in any**, at the type it was written at. -/
theorem exists_decode_of_encode (M : Layout) (h : L.encode v t = .ok c) :
    ∃ u, M.decode c t = .ok u := by
  obtain ⟨rfl, rfl⟩ := encode_eq_ok_iff.mp h
  cases v with
  | word w => exact ⟨_, decode_word_eq_ok_iff.mpr ⟨length_cell_word L w, rfl⟩⟩
  | string bytes => exact ⟨.string bytes, rfl⟩

/-- A truth value that is read in one layout is read in every other. -/
theorem decode_bool_of_decode_bool (M : Layout) (h : L.decode c (.word .bool) = .ok v) :
    M.decode c (.word .bool) = .ok v :=
  decode_bool_eq_ok_iff.mpr (decode_bool_eq_ok_iff.mp h)

/-- **Values of one type can be told by their cells.** -/
theorem eq_of_cell_eq (htype : u.type = v.type) (h : L.cell u = L.cell v) : u = v := by
  have hu : L.decode (L.cell u) u.type = .ok u := decode_cell L u
  rw [h, htype, decode_cell] at hu
  exact (Except.ok.inj hu).symm

/-- **Any other word comes back from the other layout exactly if its cell is a palindrome.** -/
theorem eq_iff_reverse_eq (hLM : L ≠ M) {t : WordType} (ht : t ≠ .bool)
    (hencode : L.encode v (.word t) = .ok c) (hdecode : M.decode c (.word t) = .ok u) :
    u = v ↔ c.reverse = c := by
  obtain ⟨hv, hc⟩ := encode_eq_ok_iff.mp hencode
  have hu : u.type = .word t := type_of_decode hdecode
  have hread : M.cell u = c := cell_of_decode (fun h => ht (CellType.word.inj h)) hdecode
  have hwritten : M.cell v = c.reverse := by
    cases v with
    | word w => rw [← hc, reverse_cell_word hLM]
    | string bytes => cases hv
  constructor
  · rintro rfl
    exact hwritten.symm.trans hread
  · intro hreverse
    refine eq_of_cell_eq (L := M) (hu.trans hv.symm) ?_
    calc M.cell u
      _ = c := hread
      _ = c.reverse := hreverse.symm
      _ = M.cell v := hwritten.symm

/-- **The two layouts are byte reversals of each other.** A word is written in one as the reversed
cell of the other and a byte string as itself in both; any cell, of the right length or not, is
read in one as the reversed cell is in the other. So what was written in one layout is read in the
other without a fault, and it is the value that was written, bit for bit, exactly if that is a truth
value or a byte string or if its cell is a palindrome. -/
theorem layouts_are_reversals :
    (∀ w : Word, ∃ c, standard.encode (.word w) (.word w.type) = .ok c ∧
        custom.encode (.word w) (.word w.type) = .ok c.reverse) ∧
      (∀ (L : Layout) (bytes : List UInt8), L.encode (.string bytes) .string = .ok bytes) ∧
      (∀ (c : Cell) (t : WordType),
        standard.decode c (.word t) = custom.decode c.reverse (.word t)) ∧
      ∀ (L M : Layout) (v : Value) (t : CellType) (c : Cell), L ≠ M → L.encode v t = .ok c →
        ∃ u, M.decode c t = .ok u ∧
          (u = v ↔ t = .word .bool ∨ t = .string ∨ c.reverse = c) := by
  have hne : standard ≠ custom := by decide
  refine ⟨fun w => ⟨standard.cell (.word w), encode_type standard (.word w), ?_⟩,
    fun L bytes => encode_type L (.string bytes), fun c t => (decode_reverse hne c t).symm,
    fun L M v t c hLM hencode => ?_⟩
  · rw [reverse_cell_word hne]
    exact encode_type custom (.word w)
  · obtain ⟨u, hu⟩ := exists_decode_of_encode M hencode
    refine ⟨u, hu, ?_⟩
    have hown : L.decode c t = .ok v := decode_of_encode hencode
    -- Where the layout makes no difference, what is read is what the own layout reads.
    cases t with
    | word w =>
      by_cases hw : w = .bool
      · subst hw
        have hsame := decode_bool_of_decode_bool M hown
        exact iff_of_true (Except.ok.inj (hu.symm.trans hsame)) (Or.inl rfl)
      · rw [eq_iff_reverse_eq hLM hw hencode hu]
        simp [hw]
    | string => exact iff_of_true (Except.ok.inj (hu.symm.trans hown)) (Or.inr (Or.inl rfl))
    | nominal n => cases hu

/-- An integer that comes back changed, one whose cell is a palindrome, and a truth value. -/
theorem layouts_are_reversals_mixed :
    let changed : Value := .word (.int32 0x01020304)
    let mirrored : Value := .word (.int32 0x01020201)
    let yes : Value := .word (.bool true)
    standard ≠ custom ∧ standard.encode changed (.word .int32) = .ok [1, 2, 3, 4] ∧
      (∃ u, custom.decode [1, 2, 3, 4] (.word .int32) = .ok u ∧ u ≠ changed) ∧
      custom.encode mirrored (.word .int32) = .ok [1, 2, 2, 1] ∧
      standard.decode [1, 2, 2, 1] (.word .int32) = .ok mirrored ∧
      standard.encode yes (.word .bool) = .ok [0, 0, 0, 1] ∧
      custom.decode [0, 0, 0, 1] (.word .bool) = .ok yes := by
  intro changed mirrored yes
  have hne : standard ≠ custom := by decide
  have hchanged : standard.encode changed (.word .int32) = .ok [1, 2, 3, 4] := rfl
  have hmirrored : custom.encode mirrored (.word .int32) = .ok [1, 2, 2, 1] := rfl
  have hyes : standard.encode yes (.word .bool) = .ok [0, 0, 0, 1] := rfl
  have hmixed := layouts_are_reversals.2.2.2
  obtain ⟨u, hu, hiff⟩ := hmixed standard custom changed (.word .int32) _ hne hchanged
  obtain ⟨u', hu', hiff'⟩ := hmixed custom standard mirrored (.word .int32) _ hne.symm hmirrored
  obtain ⟨u'', hu'', hiff''⟩ := hmixed standard custom yes (.word .bool) _ hne hyes
  obtain rfl : u' = mirrored := hiff'.mpr (by decide)
  obtain rfl : u'' = yes := hiff''.mpr (by decide)
  exact ⟨hne, hchanged, ⟨u, hu, mt hiff.mp (by decide)⟩, hmirrored, hu', hyes, hu''⟩

end Layout

end SortedTable
