import Mathlib.Data.List.Forall2
import Mathlib.Data.List.TakeWhile
import SortedTable.Text.Blank

/-!
# Trimming, and texts that differ in case

A text that is trimmed has lost blank characters at its two ends and nothing else
(`SortedTable.Text.exists_eq_append_trim`), and blank characters at the two ends make no difference
to it (`SortedTable.Text.trim_append`). Blank characters inside are kept, so these two facts
describe trimming in full only for what has no blank at its ends. There are 25 blank characters, and
they are listed here one by one (`SortedTable.Text.isBlank_iff`).

Two texts are the same up to case if they are so letter by letter, where only ASCII letters have a
case (`SortedTable.Text.SameLetter`). That is what lowering both of them to the same text means
(`SortedTable.Text.map_toLower_eq_iff`). No letter is blank in either case, so trimming and lowering
a text can be done in any order (`SortedTable.Text.map_toLower_trim`).
-/

namespace SortedTable

namespace Text

variable {cs u v : List Char} {c d : Char}

/-! ### Blank characters -/

/-- **The characters with the property `White_Space`**, by their code points. -/
def whiteSpace : List ℕ :=
  [0x09, 0x0A, 0x0B, 0x0C, 0x0D, 0x20, 0x85, 0xA0, 0x1680, 0x2000, 0x2001, 0x2002, 0x2003, 0x2004,
    0x2005, 0x2006, 0x2007, 0x2008, 0x2009, 0x200A, 0x2028, 0x2029, 0x202F, 0x205F, 0x3000]

/-- **Those characters are blank, and no others.** -/
theorem isBlank_iff : isBlank c = true ↔ c.toNat ∈ whiteSpace := by
  simp only [isBlank, blankRanges, whiteSpace, List.any_cons, List.any_nil, Bool.or_eq_true,
    Bool.and_eq_true, decide_eq_true_iff, Bool.false_eq_true, or_false, List.mem_cons,
    List.not_mem_nil]
  omega

/-- A text of blank characters only. -/
def Blank (cs : List Char) : Prop := ∀ c ∈ cs, c.toNat ∈ whiteSpace

theorem blank_iff : Blank cs ↔ ∀ c ∈ cs, isBlank c = true := by
  simp only [Blank, isBlank_iff]

theorem Blank.reverse (h : Blank cs) : Blank cs.reverse := fun c hc => h c (List.mem_reverse.mp hc)

/-! ### Trimming -/

theorem trimFront_eq_nil_iff : trimFront cs = [] ↔ Blank cs :=
  List.dropWhile_eq_nil_iff.trans blank_iff.symm

/-- Blank characters at the front make no difference. -/
theorem trimFront_append (hu : Blank u) : trimFront (u ++ cs) = trimFront cs :=
  List.dropWhile_append_of_pos (blank_iff.mp hu)

/-- What is lost at the front is blank. -/
theorem exists_eq_append_trimFront (cs : List Char) : ∃ u, Blank u ∧ cs = u ++ trimFront cs :=
  ⟨cs.takeWhile isBlank, blank_iff.mpr fun _ hc => List.mem_takeWhile_imp hc,
    List.takeWhile_append_dropWhile.symm⟩

/-- **What is lost is blank**, and lies at the two ends. -/
theorem exists_eq_append_trim (cs : List Char) :
    ∃ u v, Blank u ∧ Blank v ∧ cs = u ++ trim cs ++ v := by
  obtain ⟨u, hu, hfront⟩ := exists_eq_append_trimFront cs
  obtain ⟨v, hv, hback⟩ := exists_eq_append_trimFront (trimFront cs).reverse
  refine ⟨u, v.reverse, hu, hv.reverse, ?_⟩
  have hinner : trimFront cs = trim cs ++ v.reverse := by
    rw [trim, ← List.reverse_append, ← hback, List.reverse_reverse]
  rw [List.append_assoc, ← hinner]
  exact hfront

/-- **Blank characters at the two ends make no difference.** -/
theorem trim_append (hu : Blank u) (hv : Blank v) : trim (u ++ cs ++ v) = trim cs := by
  rw [trim, trim, List.append_assoc, trimFront_append hu]
  -- Trimming the front stops inside `cs`, or there is nothing but blanks in it.
  by_cases hblank : trimFront cs = []
  · have hall : trimFront (cs ++ v) = [] := by
      rw [trimFront_append (trimFront_eq_nil_iff.mp hblank), trimFront_eq_nil_iff.mpr hv]
    rw [hall, hblank]
  · have hstop : trimFront (cs ++ v) = trimFront cs ++ v := by
      rw [trimFront, List.dropWhile_append, if_neg]
      · rfl
      · exact fun hnil => hblank (List.isEmpty_iff.mp hnil)
    rw [hstop, List.reverse_append, trimFront_append hv.reverse]

/-! ### Case -/

/-- **Two characters are the same letter up to ASCII case**: they are the same character, or one of
them is a capital and the other the small letter to it. -/
def SameLetter (c d : Char) : Prop :=
  c = d ∨ (c.isUpper = true ∧ d.toNat = c.toNat + 32) ∨
    (d.isUpper = true ∧ c.toNat = d.toNat + 32)

theorem isUpper_iff : c.isUpper = true ↔ 65 ≤ c.toNat ∧ c.toNat ≤ 90 := decide_eq_true_iff

/-- A capital is lowered to the letter 32 places on; any other character stays. -/
theorem toNat_toLower (c : Char) :
    c.toLower.toNat = if c.isUpper then c.toNat + 32 else c.toNat := by
  by_cases hupper : c.isUpper = true
  · obtain ⟨hA, hZ⟩ := isUpper_iff.mp hupper
    have hstep : ('a'.val - 'A'.val).toNat = 32 := rfl
    have hroom : c.val.toNat + 32 < 2 ^ 32 := by
      change c.val.toNat ≤ 90 at hZ
      omega
    rw [if_pos hupper]
    calc c.toLower.toNat
      _ = (c.val + ('a'.val - 'A'.val)).toNat := congrArg Char.toNat (dif_pos ⟨hA, hZ⟩)
      _ = (c.val.toNat + 32) % 2 ^ 32 := by rw [UInt32.toNat_add, hstep]
      _ = c.toNat + 32 := Nat.mod_eq_of_lt hroom
  · rw [if_neg hupper]
    exact congrArg Char.toNat (dif_neg (mt isUpper_iff.mpr hupper))

/-- Lowering makes one letter out of the same letters up to case, and of no others. -/
theorem toLower_eq_toLower_iff : c.toLower = d.toLower ↔ SameLetter c d := by
  simp only [← Char.toNat_inj, toNat_toLower, SameLetter, isUpper_iff]
  split_ifs <;> omega

/-- No letter is blank in either case. -/
theorem isBlank_toLower (c : Char) : isBlank c.toLower = isBlank c := by
  rw [Bool.eq_iff_iff]
  simp only [isBlank, blankRanges, toNat_toLower, isUpper_iff, List.any_cons, List.any_nil,
    Bool.or_eq_true, Bool.and_eq_true, decide_eq_true_iff, Bool.false_eq_true, or_false]
  split_ifs
  · omega
  · exact Iff.rfl

/-- **Lowering makes the same text out of texts that differ in case**, and of no others. -/
theorem map_toLower_eq_iff {cs ds : List Char} :
    cs.map Char.toLower = ds.map Char.toLower ↔ List.Forall₂ SameLetter cs ds := by
  rw [← List.forall₂_eq_eq_eq, List.forall₂_map_left_iff, List.forall₂_map_right_iff]
  simp only [toLower_eq_toLower_iff]

theorem map_toLower_trimFront (cs : List Char) :
    (trimFront cs).map Char.toLower = trimFront (cs.map Char.toLower) := by
  have hblank : isBlank ∘ Char.toLower = isBlank := funext isBlank_toLower
  rw [trimFront, trimFront, List.dropWhile_map, hblank]

/-- **A text can be lowered before or after it is trimmed.** -/
theorem map_toLower_trim (cs : List Char) :
    (trim cs).map Char.toLower = trim (cs.map Char.toLower) := by
  rw [trim, trim, List.map_reverse, map_toLower_trimFront, List.map_reverse, map_toLower_trimFront]

end Text

end SortedTable
