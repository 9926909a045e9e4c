import Mathlib.Data.List.Infix
import SortedTable.Proofs.Interval.Emptiness
import SortedTable.Table

/-!
# A scan finds the rows of an interval

Whether an interval holds a key is asked in three places, and in three ways. A scan first asks the
interval whether it counts as empty; if it does not, it hands the two ends to the table; and the
table skips the rows below the one end and stops at the first row beyond the other. Nobody asks
about a single row (`SortedTable.Interval.contains`).

Two things could go wrong between the first and the second. Rows are lost if an interval counts as
empty and holds something, which it never does (`SortedTable.Interval.notMem_of_isEmpty`). And an
ordered table refuses ends that are the wrong way round, or that leave one and the same key out on
both sides (`SortedTable.Endpoint.Searchable`). Such ends have crossed, and an interval with crossed
ends counts as empty; so the table is never asked for them.

From the second to the third it is the order that helps. The table compares keys, and skips or stops
at the rows that the ends do not admit (`SortedTable.Table.skips_eq`,
`SortedTable.Table.stops_eq`). Over ascending rows, the tests of the two ends each change their
answer once (`SortedTable.Endpoint.admitsAbove_of_le`,
`SortedTable.Endpoint.admitsBelow_of_le`), and for such a test skipping and stopping are the same
as going through all rows.
-/

namespace SortedTable

/-! ### Ends that a table can be asked for -/

namespace Endpoint

variable {lower upper : Endpoint Key} {j k : Key}

/-- **Ends that an ordered table can be asked for**: if both name a key, the lower one is not the
greater, and where they are equal not both are left out. -/
def Searchable (lower upper : Endpoint Key) : Prop :=
  ∀ lo hi, lower.key? = some lo → upper.key? = some hi →
    lo ≤ hi ∧ ¬(lo = hi ∧ lower = .exclusive lo ∧ upper = .exclusive hi)

/-- Ends that have not crossed can be asked for. -/
theorem searchable_of_not_crossed (h : ¬lower.crossed upper = true) :
    Searchable lower upper := by
  have hcut : lower.lowerCut < upper.upperCut := not_le.mp (mt crossed_iff.mpr h)
  intro lo hi hlo hhi
  have hbefore : .before lo ≤ lower.lowerCut := by
    cases lower <;> cases hlo <;> simp [lowerCut]
  have hafter : upper.upperCut ≤ .after hi := by
    cases upper <;> cases hhi <;> simp [upperCut]
  refine ⟨?_, ?_⟩
  · have hlt : Cut.before lo < .after hi := hbefore.trans_lt (hcut.trans_le hafter)
    by_contra hle
    exact absurd (Cut.after_le_before.mpr (not_le.mp hle)) (not_le.mpr hlt)
  · -- Two ends that leave the same key out are the rims of that key, the wrong way round.
    rintro ⟨rfl, rfl, rfl⟩
    exact absurd (Cut.before_covBy_after lo).lt.le (not_le.mpr hcut)

theorem admitsAbove_of_le (hjk : j ≤ k) (hj : lower.admitsAbove j = true) :
    lower.admitsAbove k = true := by
  rw [admitsAbove_iff] at hj ⊢
  exact le_trans hj (Cut.before_le_before.mpr hjk)

end Endpoint

namespace Interval

variable {I : Interval}

theorem not_crossed_of_not_isEmpty {lower upper : Endpoint Key}
    (h : ¬(between lower upper).isEmpty = true) : ¬lower.crossed upper = true := by
  intro hcrossed
  exact h (isEmpty_between_iff_cut.mpr (Or.inl (Endpoint.crossed_iff.mp hcrossed)))

/-- **An interval that does not count as empty has ends that a table can be asked for.** -/
theorem exists_bounds_searchable (h : ¬I.isEmpty = true) :
    ∃ lower upper, I.bounds? = some (lower, upper) ∧ Endpoint.Searchable lower upper := by
  cases I with
  | empty => exact absurd rfl h
  | between lower upper =>
    exact ⟨lower, upper, rfl, Endpoint.searchable_of_not_crossed (not_crossed_of_not_isEmpty h)⟩

end Interval

/-! ### Skipping and stopping -/

namespace Table

variable {keys : List Key} {p : Key → Bool}

/-- Under a test that fails first and then always succeeds, skipping is filtering. -/
theorem dropWhile_eq_filter (hkeys : keys.Pairwise (· < ·))
    (hp : ∀ j k, j ≤ k → p j = true → p k = true) :
    keys.dropWhile (fun k => !p k) = keys.filter p := by
  induction keys with
  | nil => rfl
  | cons k rest ih =>
    obtain ⟨hk, hrest⟩ := List.pairwise_cons.mp hkeys
    by_cases hpk : p k = true
    · have hall : ∀ j ∈ k :: rest, p j = true := by
        intro j hj
        rcases List.mem_cons.mp hj with rfl | hj
        · exact hpk
        · exact hp k j (hk j hj).le hpk
      rw [List.filter_eq_self.mpr hall, List.dropWhile_cons_of_neg (by simp [hpk])]
    · rw [List.dropWhile_cons_of_pos (by simpa using hpk), List.filter_cons_of_neg hpk, ih hrest]

/-- Under a test that succeeds first and then always fails, stopping is filtering. -/
theorem takeWhile_eq_filter (hkeys : keys.Pairwise (· < ·))
    (hp : ∀ j k, j ≤ k → p k = true → p j = true) : keys.takeWhile p = keys.filter p := by
  induction keys with
  | nil => rfl
  | cons k rest ih =>
    obtain ⟨hk, hrest⟩ := List.pairwise_cons.mp hkeys
    by_cases hpk : p k = true
    · rw [List.takeWhile_cons_of_pos hpk, List.filter_cons_of_pos hpk, ih hrest]
    · have hnone : ∀ j ∈ k :: rest, ¬p j = true := by
        intro j hj hpj
        rcases List.mem_cons.mp hj with rfl | hj
        · exact hpk hpj
        · exact hpk (hp k j (hk j hj).le hpj)
      rw [List.filter_eq_nil_iff.mpr hnone, List.takeWhile_cons_of_neg hpk]

/-! ### Scanning -/

variable {t : Table} {I : Interval} {lower upper : Endpoint Key} {k : Key}

/-- **A row is skipped on the way to a lower end if the end does not admit it.** -/
theorem skips_eq : skips lower k = !lower.admitsAbove k := by
  rw [Bool.eq_iff_iff]
  cases lower with
  | unbounded => simp [skips, Endpoint.admitsAbove]
  | inclusive b => simp [skips, Endpoint.admitsAbove, compare_lt_iff_lt]
  | exclusive b => simp [skips, Endpoint.admitsAbove, compare_gt_iff_gt]

/-- **A scan stops at a row if the upper end does not admit it.** -/
theorem stops_eq : stops upper k = !upper.admitsBelow k := by
  rw [Bool.eq_iff_iff]
  cases upper with
  | unbounded => simp [stops, Endpoint.admitsBelow]
  | inclusive b => simp [stops, Endpoint.admitsBelow, compare_gt_iff_gt]
  | exclusive b => simp [stops, Endpoint.admitsBelow, compare_lt_iff_lt]

/-- **The rows between two ends are the rows on the inner side of both.** -/
theorem rowsBetween_eq_filter (t : Table) (lower upper : Endpoint Key) :
    t.rowsBetween lower upper = t.keys.filter (Interval.between lower upper).contains := by
  have hskip : t.keys.dropWhile (skips lower) = t.keys.filter lower.admitsAbove := by
    have hskips : skips lower = fun k => !lower.admitsAbove k := funext fun _ => skips_eq
    rw [hskips]
    exact dropWhile_eq_filter t.ascending fun _ _ => Endpoint.admitsAbove_of_le
  have hstop : (t.keys.filter lower.admitsAbove).takeWhile (fun k => !stops upper k) =
      (t.keys.filter lower.admitsAbove).filter upper.admitsBelow := by
    simp only [stops_eq, Bool.not_not]
    exact takeWhile_eq_filter (t.ascending.filter _) fun _ _ => Endpoint.admitsBelow_of_le
  calc t.rowsBetween lower upper
    _ = (t.keys.filter lower.admitsAbove).takeWhile fun k => !stops upper k := by
      rw [rowsBetween, hskip]
    _ = t.keys.filter fun k => lower.admitsAbove k && upper.admitsBelow k := by
      rw [hstop, List.filter_filter]
      simp only [Bool.and_comm]

theorem isInfix_rowsBetween (t : Table) (lower upper : Endpoint Key) :
    t.rowsBetween lower upper <:+: t.keys :=
  (List.takeWhile_prefix _).isInfix.trans (List.dropWhile_suffix _).isInfix

theorem scan_of_isEmpty (h : I.isEmpty = true) : t.scan I = [] := if_pos h

theorem scan_between (h : ¬(Interval.between lower upper).isEmpty = true) :
    t.scan (.between lower upper) = t.rowsBetween lower upper := if_neg h

/-- **A scan gives the rows that the interval holds.** -/
theorem scan_eq_filter (t : Table) (I : Interval) : t.scan I = t.keys.filter I.contains := by
  by_cases h : I.isEmpty = true
  · have hnone : ∀ k ∈ t.keys, ¬I.contains k = true := fun k _ => Interval.notMem_of_isEmpty h
    rw [scan_of_isEmpty h, List.filter_eq_nil_iff.mpr hnone]
  · cases I with
    | empty => exact absurd rfl h
    | between lower upper => rw [scan_between h, rowsBetween_eq_filter]

/-- **The rows of an interval are one block of the table.** -/
theorem isInfix_scan (t : Table) (I : Interval) : t.scan I <:+: t.keys := by
  by_cases h : I.isEmpty = true
  · rw [scan_of_isEmpty h]
    exact List.nil_infix
  · cases I with
    | empty => exact absurd rfl h
    | between lower upper =>
      rw [scan_between h]
      exact t.isInfix_rowsBetween lower upper

/-- **A scan finds the rows of an interval, and the table is never asked for ends that it refuses.**
An interval that does not count as empty has two ends, and an ordered table can be asked for them.
The rows that a scan gives are those of the rows of the table that the interval holds, strictly
ascending and in one block; so with a table made of any keys, they are the keys that the interval
holds. -/
theorem scan_finds_interval (I : Interval) :
    (I.isEmpty = false → ∃ lower upper, I.bounds? = some (lower, upper) ∧
        Endpoint.Searchable lower upper) ∧
      (∀ t : Table, t.scan I = t.keys.filter I.contains ∧ (t.scan I).Pairwise (· < ·) ∧
        t.scan I <:+: t.keys) ∧
      ∀ (keys : List Key) (k : Key), k ∈ (ofKeys keys).scan I ↔ k ∈ keys ∧ k ∈ I := by
  refine ⟨fun h => Interval.exists_bounds_searchable (by simp [h]),
    fun t => ⟨scan_eq_filter t I, ?_, isInfix_scan t I⟩, fun keys k => ?_⟩
  · exact t.ascending.sublist (isInfix_scan t I).sublist
  · rw [scan_eq_filter, List.mem_filter, mem_ofKeys]
    rfl

/-- An open interval with one key in it, over a table with that key, both of its ends and a key far
below. -/
theorem scan_finds_interval_single :
    let a : Key := ⟨[0x61]⟩
    let I : Interval := .ioo a a.next.next
    let t : Table := ofKeys [a.next.next, a.next, a, a.next, .empty]
    I.isEmpty = false ∧
      (∃ lower upper, I.bounds? = some (lower, upper) ∧ Endpoint.Searchable lower upper) ∧
      t.scan I = [a.next] ∧ t.scan I <:+: t.keys := by
  intro a I t
  have hI : I.isEmpty = false := by decide
  obtain ⟨hends, hscan, -⟩ := scan_finds_interval I
  exact ⟨hI, hends hI, by decide, (hscan t).2.2⟩

end Table

end SortedTable
