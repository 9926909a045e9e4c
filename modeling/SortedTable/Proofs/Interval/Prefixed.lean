import SortedTable.Proofs.Interval.Reachable
import SortedTable.Proofs.Key.PrefixEnd

/-!
# The interval of a prefix

`SortedTable.Interval.startingWith` asks for the keys with a certain beginning, and an interval
cannot look at the beginning of a key: all it has are two endpoints and the order. It starts at the
prefix itself and runs up to the end of the prefix, or on without end where the prefix has none.

That this is the right interval is a fact about keys, `SortedTable.Key.startsWith_iff`. What is left
to do here is to see that the two endpoints ask the two questions of that fact, whether or not there
is an upper key to compare with. Three kinds of keys could still be feared to go astray, and the
order deals with each of them: a key that breaks off inside the prefix is below it; a key that
agrees with the prefix up to the last byte that can be raised, and not to its end, is below it too;
and where the prefix has nothing to raise, no key is above all those that begin with it.

Two prefixes are nested, one beginning with the other, or no key begins with both. Their intervals
are as two nested or disjoint stretches should be, down to the endpoints. The longer prefix starts
no earlier and ends no later (`SortedTable.Interval.upperCut_prefixEnd?_le`), so intersection leaves
its interval as it is (`SortedTable.Interval.startingWith_inter_eq_left`). What is disjoint has the
intersection `empty`, also where the one interval ends at the key at which the other starts.
-/

namespace SortedTable

namespace Interval

variable {p q k : Key}

/-- The upper end names the end of the prefix, if there is one. -/
theorem startingWith_eq_between (p : Key) : startingWith p =
    between (.inclusive p) (p.prefixEnd?.elim .unbounded .exclusive) := by
  rw [startingWith]
  cases p.prefixEnd? <;> rfl

/-- That upper end admits the keys that stop short of the end of the prefix. -/
theorem admitsBelow_prefixEnd?_iff :
    (p.prefixEnd?.elim .unbounded .exclusive : Endpoint Key).admitsBelow k = true ↔
      p.StopsShort k := by
  cases h : p.prefixEnd? with
  | none => exact iff_of_true rfl (Key.stopsShort_of_none h)
  | some s =>
    rw [Key.stopsShort_iff_lt h]
    exact decide_eq_true_iff

/-- **The interval of a prefix holds the keys between the prefix and its end.** -/
theorem mem_startingWith_iff : k ∈ startingWith p ↔ p ≤ k ∧ p.StopsShort k := by
  rw [startingWith_eq_between, mem_between, admitsBelow_prefixEnd?_iff, Endpoint.admitsAbove,
    decide_eq_true_iff]

theorem mem_startingWith_iff_startsWith : k ∈ startingWith p ↔ k.startsWith p = true :=
  mem_startingWith_iff.trans Key.startsWith_iff.symm

/-- **The interval of a prefix holds the keys that begin with it**, and no others. It is stored as
two endpoints, the prefix and its end, or the prefix alone where it has no end, and a key is only
ever compared with those; yet what it holds are the extensions of the prefix by any bytes, the
prefix itself among them. -/
theorem startingWith_holds_extensions (p : Key) :
    (startingWith p).bounds? = some (.inclusive p, p.prefixEnd?.elim .unbounded .exclusive) ∧
      ∀ k, (k ∈ startingWith p ↔ k.startsWith p = true) ∧
        (k ∈ startingWith p ↔ ∃ rest, k = ⟨p.bytes ++ rest⟩) := by
  refine ⟨by rw [startingWith_eq_between, bounds?], fun k => ?_⟩
  have hmem : k ∈ startingWith p ↔ k.startsWith p = true :=
    mem_startingWith_iff.trans Key.startsWith_iff.symm
  have hext : p.bytes <+: k.bytes ↔ ∃ rest, k = ⟨p.bytes ++ rest⟩ := by
    cases k
    simp [List.IsPrefix, eq_comm]
  exact ⟨hmem, hmem.trans (List.isPrefixOf_iff_prefix.trans hext)⟩

/-- A prefix that ends in bytes at their greatest value. The key right before its end begins with
it, a key that comes before it by its last byte does not. -/
example :
    let p : Key := ⟨[0x61, 0xFF]⟩
    startingWith p = ico p ⟨[0x62]⟩ ∧ ⟨[0x61, 0xFF, 0xFF, 0xFF]⟩ ∈ startingWith p ∧
      ⟨[0x61, 0xFE, 0xFF]⟩ ∉ startingWith p ∧ ⟨[0x62]⟩ ∉ startingWith p := by decide

/-! ### The intervals of two prefixes -/

theorem self_mem_startingWith (p : Key) : p ∈ startingWith p :=
  mem_startingWith_iff_startsWith.mpr (Key.startsWith_self p)

/-- **The interval of the longer prefix does not end later.** -/
theorem upperCut_prefixEnd?_le (h : p.startsWith q = true) :
    (p.prefixEnd?.elim .unbounded .exclusive : Endpoint Key).upperCut ≤
      (q.prefixEnd?.elim .unbounded .exclusive : Endpoint Key).upperCut := by
  rcases hs : q.prefixEnd? with _ | s
  · exact Cut.le_top
  · obtain ⟨t, ht, hts⟩ := Key.exists_prefixEnd?_le h hs
    rw [ht]
    exact Cut.before_le_before.mpr hts

/-- **The interval of the longer prefix stays as it is** when it is intersected with that of the
shorter one. -/
theorem startingWith_inter_eq_left (h : p.startsWith q = true) :
    startingWith p ∩ startingWith q = startingWith p := by
  have hqp : q ≤ p := (Key.startsWith_iff.mp h).1
  have hoverlap : overlap (startingWith p) (startingWith q) = startingWith p := by
    rw [startingWith_eq_between p, startingWith_eq_between q]
    exact overlap_eq_left (Cut.before_le_before.mpr hqp) (upperCut_prefixEnd?_le h)
  have hroom : ¬(startingWith p).isEmpty = true := fun hempty =>
    notMem_of_isEmpty hempty (self_mem_startingWith p)
  rw [inter_eq_collapse_overlap, hoverlap, collapse_of_not_isEmpty hroom]

/-- An intersection that is the interval of a prefix holds that prefix. -/
theorem startingWith_inter_eq_left_iff :
    startingWith p ∩ startingWith q = startingWith p ↔ p.startsWith q = true := by
  refine ⟨fun h => ?_, startingWith_inter_eq_left⟩
  have hp : p ∈ startingWith p ∩ startingWith q := h.symm ▸ self_mem_startingWith p
  exact mem_startingWith_iff_startsWith.mp (mem_inter.mp hp).2

/-- **Prefixes that are not nested have disjoint intervals**, and intersection finds that out. -/
theorem startingWith_inter_eq_empty_iff :
    startingWith p ∩ startingWith q = empty ↔
      ¬p.startsWith q = true ∧ ¬q.startsWith p = true := by
  rw [(Reachable.startingWith p).inter_eq_empty_iff (.startingWith q), ← not_or]
  simp only [mem_startingWith_iff_startsWith]
  constructor
  · rintro hdisjoint (hpq | hqp)
    · exact hdisjoint p ⟨Key.startsWith_self p, hpq⟩
    · exact hdisjoint q ⟨hqp, Key.startsWith_self q⟩
  · rintro hnested k ⟨hkp, hkq⟩
    exact hnested (Key.startsWith_or_startsWith hkp hkq)

/-- **The intervals of prefixes are closed under intersection**, written with the same endpoints.
The intersection of two of them is the one of the second prefix exactly if that begins with the
first, the one of the first prefix exactly if that begins with the second, and `empty` exactly if
neither begins with the other. -/
theorem prefixes_closed_under_inter (p q : Key) :
    (startingWith p ∩ startingWith q = startingWith q ↔ q.startsWith p = true) ∧
      (startingWith p ∩ startingWith q = startingWith p ↔ p.startsWith q = true) ∧
      (startingWith p ∩ startingWith q = empty ↔
        ¬q.startsWith p = true ∧ ¬p.startsWith q = true) := by
  refine ⟨?_, startingWith_inter_eq_left_iff, startingWith_inter_eq_empty_iff.trans and_comm⟩
  rw [inter_comm]
  exact startingWith_inter_eq_left_iff

/-- Two nested prefixes with one end, two of which neither has an end, and two that touch: the first
one ends at the key at which the second one starts. -/
example :
    let a : Key := ⟨[0x61]⟩
    let aff : Key := ⟨[0x61, 0xFF]⟩
    startingWith a ∩ startingWith aff = ico aff ⟨[0x62]⟩ ∧
      startingWith ⟨[0xFF, 0xFF]⟩ ∩ startingWith .empty = startingWith ⟨[0xFF, 0xFF]⟩ ∧
      startingWith aff ∩ startingWith ⟨[0x62]⟩ = empty := by decide

end Interval

end SortedTable
