import SortedTable.Interval.Pieces
import SortedTable.Proofs.Interval.Overlap
import SortedTable.Selection.Basic

/-!
# Pieces that cover a cut interval once

A long scan is handed out to several readers by cutting its interval at keys in between
(`SortedTable.Interval.pieces`). Every row has to come to one reader and to no other.

Between two pieces lies a cut of the line of keys, the one right before the key that they share: it
is the upper cut of the piece that ends there, which leaves the key out, and the lower cut of the
piece that starts there, which takes it in. One such cut divides an interval in two
(`SortedTable.Interval.mem_between_iff_of_cut`), and a list of pieces comes from dividing the
rightmost one again and again. What the pieces hold together, and that no two of them share a key,
are two inductions on the list of cuts over this one fact.

The pieces are made from keys and flags, and two empty keys are made into something else. They
never come up: the right key of a piece is above its left key, so it is not the empty one
(`SortedTable.Interval.ofFlags_of_lt`).
-/

namespace SortedTable

/-! ### Ends made from flags -/

namespace Endpoint

variable {k cut : Key} {isOpen : Bool}

/-- The end at a key that is left out if the flag is set. -/
def ofFlag (isOpen : Bool) (k : Key) : Endpoint Key := if isOpen then exclusive k else inclusive k

/-- A lower end at a key cuts below every cut further up, whatever its flag. -/
theorem lowerCut_ofFlag_le (h : k < cut) : (ofFlag isOpen k).lowerCut ≤ .before cut := by
  cases isOpen with
  | false => exact Cut.before_le_before.mpr h.le
  | true => exact Cut.after_le_before.mpr h

/-- An upper end at a key cuts above every cut further down, whatever its flag. -/
theorem le_upperCut_ofFlag (h : cut < k) : .before cut ≤ (ofFlag isOpen k).upperCut := by
  cases isOpen with
  | false => exact Cut.before_le_after.mpr h.le
  | true => exact Cut.before_le_before.mpr h.le

end Endpoint

namespace Interval

variable {first last cut k : Key} {leftOpen rightOpen : Bool} {cuts : List Key}
  {lower upper : Endpoint Key}

/-- **Between ascending keys the flags say what they say**: the upper key is not the empty one, so
the two are not taken for every key. -/
theorem ofFlags_of_lt (h : first < last) :
    ofFlags first leftOpen last rightOpen =
      between (.ofFlag leftOpen first) (.ofFlag rightOpen last) := by
  have hlast : last.isEmpty = false := by
    rw [Key.isEmpty, List.isEmpty_eq_false_iff]
    intro hbytes
    exact List.not_lt_nil first.bytes (hbytes ▸ Key.lt_def.mp h)
  rw [ofFlags.eq_def, hlast, Bool.and_false, if_neg Bool.false_ne_true]
  cases leftOpen <;> cases rightOpen <;> rfl

/-! ### One cut -/

/-- **A cut divides an interval in two.** The keys below it are in the part that leaves its key
out, the others in the part that takes it in. -/
theorem mem_between_iff_of_cut (hlower : lower.lowerCut ≤ .before cut)
    (hupper : .before cut ≤ upper.upperCut) :
    k ∈ between lower upper ↔
      k ∈ between lower (.exclusive cut) ∨ k ∈ between (.inclusive cut) upper := by
  simp only [mem_between_iff_cut, Endpoint.upperCut, Endpoint.lowerCut, Cut.after_le_before,
    Cut.before_le_before]
  constructor
  · rintro ⟨habove, hbelow⟩
    exact (lt_or_ge k cut).imp (fun hk => ⟨habove, hk⟩) fun hk => ⟨hk, hbelow⟩
  · rintro (⟨habove, hk⟩ | ⟨hk, hbelow⟩)
    · exact ⟨habove, (Cut.after_le_before.mpr hk).trans hupper⟩
    · exact ⟨hlower.trans (Cut.before_le_before.mpr hk), hbelow⟩

/-- The part below a cut holds keys below it only. -/
theorem lt_of_mem_ofFlags (h : first < cut) (hk : k ∈ ofFlags first leftOpen cut true) :
    k < cut := by
  rw [ofFlags_of_lt h, mem_between_iff_cut] at hk
  exact Cut.after_le_before.mp hk.2

/-- The part from a cut on holds no keys below it. -/
theorem le_of_mem_ofFlags (h : cut < last) (hk : k ∈ ofFlags cut false last rightOpen) :
    cut ≤ k := by
  rw [ofFlags_of_lt h, mem_between_iff_cut] at hk
  exact Cut.before_le_before.mp hk.1

/-- The two parts of an interval between keys are between keys again. -/
theorem mem_ofFlags_iff_of_cut (hfirst : first < cut) (hlast : cut < last) :
    k ∈ ofFlags first leftOpen last rightOpen ↔
      k ∈ ofFlags first leftOpen cut true ∨ k ∈ ofFlags cut false last rightOpen := by
  rw [ofFlags_of_lt (hfirst.trans hlast), ofFlags_of_lt hfirst, ofFlags_of_lt hlast]
  exact mem_between_iff_of_cut (Endpoint.lowerCut_ofFlag_le hfirst)
    (Endpoint.le_upperCut_ofFlag hlast)

/-! ### A list of cuts -/

/-- **The pieces by their place.** Each lies between a cut and the one after it; of the two flags of
the whole, the first piece has the left one and the last piece the right one. -/
theorem getElem?_pieces {i : ℕ} {left right : Key} (hleft : (first :: cuts)[i]? = some left)
    (hright : cuts[i]? = some right) :
    (pieces first leftOpen cuts rightOpen)[i]? =
      some (ofFlags left (if i = 0 then leftOpen else false) right
        (if i + 1 = cuts.length then rightOpen else true)) := by
  fun_induction pieces first leftOpen cuts rightOpen generalizing i left with
  | case1 => cases hright
  | case2 first leftOpen last =>
    obtain ⟨hi, hlast⟩ := List.getElem?_eq_some_iff.mp hright
    obtain rfl : i = 0 := Nat.lt_one_iff.mp hi
    obtain rfl : first = left := Option.some.inj hleft
    obtain rfl : last = right := hlast
    rfl
  | case3 first leftOpen cut next rest ih =>
    cases i with
    | zero =>
      obtain rfl : first = left := Option.some.inj hleft
      obtain rfl : cut = right := Option.some.inj hright
      simp
    | succ i =>
      rw [List.getElem?_cons_succ, ih hleft hright]
      simp

/-- The last cut is above the first key. -/
theorem lt_getLast (hcuts : cuts ≠ []) (hasc : (first :: cuts).Pairwise (· < ·)) :
    first < cuts.getLast hcuts :=
  (List.pairwise_cons.mp hasc).1 _ (List.getLast_mem hcuts)

/-- **The pieces hold what the whole holds.** -/
theorem exists_mem_pieces_iff (hcuts : cuts ≠ []) (hasc : (first :: cuts).Pairwise (· < ·)) :
    (∃ I ∈ pieces first leftOpen cuts rightOpen, k ∈ I) ↔
      k ∈ ofFlags first leftOpen (cuts.getLast hcuts) rightOpen := by
  fun_induction pieces first leftOpen cuts rightOpen with
  | case1 => exact absurd rfl hcuts
  | case2 => simp
  | case3 first leftOpen cut next rest ih =>
    obtain ⟨hfirst, hrest⟩ := List.pairwise_cons.mp hasc
    have hne : next :: rest ≠ [] := List.cons_ne_nil next rest
    have hlast : cut < (next :: rest).getLast hne := lt_getLast hne hrest
    rw [List.getLast_cons hne, mem_ofFlags_iff_of_cut (hfirst cut List.mem_cons_self) hlast,
      ← ih hne hrest]
    simp only [List.mem_cons, or_and_right, exists_or, exists_eq_left]

/-- **No key is in two pieces.** -/
theorem pairwise_pieces (hasc : (first :: cuts).Pairwise (· < ·)) (k : Key) :
    (pieces first leftOpen cuts rightOpen).Pairwise fun I J => ¬(k ∈ I ∧ k ∈ J) := by
  fun_induction pieces first leftOpen cuts rightOpen with
  | case1 => exact .nil
  | case2 => exact List.pairwise_singleton _ _
  | case3 first leftOpen cut next rest ih =>
    obtain ⟨hfirst, hrest⟩ := List.pairwise_cons.mp hasc
    have hne : next :: rest ≠ [] := List.cons_ne_nil next rest
    refine .cons (fun J hJ => ?_) (ih hrest)
    rintro ⟨hk, hkJ⟩
    have hbelow : k < cut := lt_of_mem_ofFlags (hfirst cut List.mem_cons_self) hk
    have habove : cut ≤ k := by
      have hlast : cut < (next :: rest).getLast hne := lt_getLast hne hrest
      exact le_of_mem_ofFlags hlast ((exists_mem_pieces_iff hne hrest).mp ⟨J, hJ, hkJ⟩)
    exact absurd hbelow (not_lt.mpr habove)

end Interval

namespace Selection

/-- The selection that is appended to nothing but the consecutive pieces. -/
def ofPieces (first : Key) (leftOpen : Bool) (cuts : List Key) (rightOpen : Bool) : Selection :=
  empty.extend (Interval.pieces first leftOpen cuts rightOpen)

theorem entries_ofPieces (first : Key) (leftOpen : Bool) (cuts : List Key) (rightOpen : Bool) :
    (ofPieces first leftOpen cuts rightOpen).entries =
      (Interval.pieces first leftOpen cuts rightOpen).map .interval := rfl

/-- **Cutting an interval loses no key and duplicates none.** Take keys in strictly ascending order,
two at least, and the selection of the consecutive pieces between them. It has one entry for each
two neighbours, which leaves its right key out and takes its left key in, but for the flags of the
whole at either end. It selects exactly the keys of the interval from the first key to the last one
under these flags, and selects none of them by two entries. -/
theorem pieces_cover_once {first : Key} {cuts : List Key} (hcuts : cuts ≠ [])
    (hasc : (first :: cuts).Pairwise (· < ·)) (leftOpen rightOpen : Bool) :
    ((ofPieces first leftOpen cuts rightOpen).size = cuts.length ∧
        ∀ i left right, (first :: cuts)[i]? = some left → cuts[i]? = some right →
          (ofPieces first leftOpen cuts rightOpen).entries[i]? =
            some (Entry.interval (.ofFlags left (if i = 0 then leftOpen else false) right
              (if i + 1 = cuts.length then rightOpen else true)))) ∧
      (∀ k, k ∈ ofPieces first leftOpen cuts rightOpen ↔
        k ∈ Interval.ofFlags first leftOpen (cuts.getLast hcuts) rightOpen) ∧
      ∀ k, (ofPieces first leftOpen cuts rightOpen).entries.Pairwise
        fun e e' => ¬(k ∈ e ∧ k ∈ e') := by
  refine ⟨⟨?_, fun i left right hleft hright => ?_⟩, fun k => ?_, fun k => ?_⟩
  · rw [size, entries_ofPieces, List.length_map, Interval.length_pieces]
  · rw [entries_ofPieces, List.getElem?_map, Interval.getElem?_pieces hleft hright, Option.map_some]
  · rw [ofPieces, mem_extend, or_iff_right (not_mem_empty k),
      Interval.exists_mem_pieces_iff hcuts hasc]
  · rw [entries_ofPieces, List.pairwise_map]
    exact Interval.pairwise_pieces hasc k

/-- Three pieces from the empty key on. The cuts are a key and the one right after it, so the piece
between them holds one key only. -/
theorem pieces_cover_once_narrow :
    let a : Key := ⟨[0x61]⟩
    let cuts : List Key := [a, a.next, ⟨[0x62]⟩]
    let S := ofPieces .empty true cuts false
    cuts ≠ [] ∧ (.empty :: cuts).Pairwise (· < ·) ∧
      S.entries[1]? = some (Entry.interval (.ico a a.next)) ∧
      (∀ k, k ∈ S ↔ k ∈ Interval.ioc .empty ⟨[0x62]⟩) ∧
      ∀ k, S.entries.Pairwise fun e e' => ¬(k ∈ e ∧ k ∈ e') := by
  intro a cuts S
  have hcuts : cuts ≠ [] := List.cons_ne_nil _ _
  have hasc : (.empty :: cuts).Pairwise (· < ·) := by decide
  obtain ⟨⟨-, hplace⟩, hmem, hdisjoint⟩ := pieces_cover_once hcuts hasc true false
  exact ⟨hcuts, hasc, hplace 1 a a.next rfl rfl, hmem, hdisjoint⟩

end Selection

end SortedTable
