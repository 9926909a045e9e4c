import Mathlib.Data.List.Basic
import SortedTable.Proofs.Interval.Reachable
import SortedTable.Proofs.Selection.Clip

/-!
# What survives a clip

Clipping goes through the entries of a selection and drops those of which nothing is left. Whether
something is left is judged by the endpoints alone, and the judgement is meant to be about keys. An
entry should go exactly when it has no key in common with the interval, when the two do not
**meet** (`SortedTable.Entry.Meets`).

For a single key this is so by definition. For an interval it is the disjointness test of
`SortedTable.Interval.Reachable.inter_eq_empty_iff`, and that one asks for intervals that come from
the constructors: an endpoint pair that holds nothing unnoticed would stay in the selection as an
entry without keys. With intervals from the constructors, a clip is a filter followed by a map. It
keeps the entries that meet the interval, in their order, and narrows each of them
(`SortedTable.Selection.entries_clip`).
-/

namespace SortedTable

/-! ### Entries that meet an interval -/

namespace Entry

variable {e : Entry} {I J : Interval} {k : Key}

/-- **An entry meets an interval** if some key is in both. -/
def Meets (e : Entry) (I : Interval) : Prop := ∃ k, k ∈ e ∧ k ∈ I

theorem meets_key : (key k).Meets I ↔ k ∈ I := by
  simp only [Meets, mem_key, exists_eq_left']

theorem meets_interval : (interval J).Meets I ↔ ∃ k, k ∈ J ∩ I := by
  simp only [Meets, mem_interval, Interval.mem_inter]

instance decidableMeets : (e : Entry) → (I : Interval) → Decidable (e.Meets I)
  | key k, I => decidable_of_iff (k ∈ I) meets_key.symm
  | interval J, I => decidable_of_iff (∃ k, k ∈ J ∩ I) meets_interval.symm

/-- The part of an entry inside an interval, whether or not there is one: a single key stays as it
is, an interval is intersected. -/
def narrow : Entry → Interval → Entry
  | key k, _ => key k
  | interval J, I => interval (J ∩ I)

/-- Where an entry meets an interval, narrowing leaves the keys they share. -/
theorem mem_narrow (h : e.Meets I) : k ∈ e.narrow I ↔ k ∈ e ∧ k ∈ I := by
  cases e with
  | key j =>
    refine (and_iff_left_of_imp fun hk => ?_).symm
    exact mem_key.mp hk ▸ meets_key.mp h
  | interval J => exact Interval.mem_inter

/-- What is left of an entry that meets the interval meets it too, so it selects something. -/
theorem exists_mem_narrow (h : e.Meets I) : ∃ k, k ∈ e.narrow I := by
  obtain ⟨k, hk⟩ := h
  exact ⟨k, (mem_narrow ⟨k, hk⟩).mpr hk⟩

/-- **An entry is dropped exactly when it does not meet the interval**, and narrowed otherwise. -/
theorem clip?_eq_ite (he : ∀ J, e = interval J → J.Reachable) (hI : I.Reachable) :
    e.clip? I = if e.Meets I then some (e.narrow I) else none := by
  cases e with
  | key k =>
    by_cases hk : k ∈ I
    · rw [clip?_key_of_mem hk, if_pos (meets_key.mpr hk)]
      rfl
    · rw [clip?_key_of_notMem hk, if_neg (mt meets_key.mp hk)]
  | interval J =>
    have hdisjoint : J ∩ I = .empty ↔ ¬(interval J).Meets I := by
      rw [(he J rfl).inter_eq_empty_iff hI]
      exact not_exists.symm
    by_cases hJ : J ∩ I = .empty
    · rw [clip?_interval_of_eq_empty hJ, if_neg (hdisjoint.mp hJ)]
    · rw [clip?_interval_of_ne_empty hJ, if_pos (not_not.mp (mt hdisjoint.mpr hJ))]
      rfl

end Entry

/-! ### The entries of a clipped selection -/

namespace Selection

variable {S : Selection} {I : Interval} {e : Entry}

section Constructed

variable (hS : ∀ J, .interval J ∈ S.entries → J.Reachable) (hI : I.Reachable)

include hS hI

/-- **A clip keeps the entries that meet the interval**, in their order, and narrows each. -/
theorem entries_clip :
    (S.clip I).entries =
      (S.entries.filter fun e => e.Meets I).map fun e => e.narrow I := by
  have hentry : ∀ e ∈ S.entries, e.clip? I =
      if decide (e.Meets I) = true then some (e.narrow I) else none := by
    intro e he
    simp only [decide_eq_true_eq]
    refine Entry.clip?_eq_ite (fun J hJ => ?_) hI
    exact hS J (hJ ▸ he)
  -- Filtering and then mapping is one pass over the entries too, so the passes agree entrywise.
  rw [clip, List.filterMap_congr hentry, ← List.filterMap_eq_map, List.filterMap_filter]
  rfl

/-- Every entry that is left selects a key. -/
theorem exists_mem_of_mem_clip (he : e ∈ (S.clip I).entries) : ∃ k, k ∈ e := by
  rw [entries_clip hS hI] at he
  obtain ⟨e, hmem, rfl⟩ := List.mem_map.mp he
  exact Entry.exists_mem_narrow (of_decide_eq_true (List.mem_filter.mp hmem).2)

/-- A selection is clipped to nothing exactly when it has no key in the interval. -/
theorem isEmpty_clip_iff : (S.clip I).isEmpty = true ↔ ¬∃ k, k ∈ S ∧ k ∈ I := by
  simp only [← mem_clip]
  rw [isEmpty, List.isEmpty_iff, List.eq_nil_iff_forall_not_mem, not_exists]
  constructor
  · intro hnone k hk
    obtain ⟨e, he, -⟩ := mem_iff.mp hk
    exact hnone e he
  · intro hnone e he
    obtain ⟨k, hk⟩ := exists_mem_of_mem_clip hS hI he
    exact hnone k (mem_iff.mpr ⟨e, he, hk⟩)

end Constructed

/-- **No entry is lost in a clip and none is left without keys.** Where all intervals come from the
constructors, the clipped selection has one entry for each entry that shares a key with the
interval, in the same order, a single key as it is and an interval as the intersection, and it has
no others. Each of its entries selects a key; so it has no entry exactly when the selection and the
interval have no key in common. -/
theorem clip_keeps_meeting_entries (hS : ∀ J, .interval J ∈ S.entries → J.Reachable)
    (hI : I.Reachable) :
    (S.clip I).entries =
        (S.entries.filter fun e => e.Meets I).map (fun e => e.narrow I) ∧
      (∀ e ∈ (S.clip I).entries, ∃ k, k ∈ e) ∧
      ((S.clip I).isEmpty = true ↔ ¬∃ k, k ∈ S ∧ k ∈ I) :=
  ⟨entries_clip hS hI, fun _ he => exists_mem_of_mem_clip hS hI he, isEmpty_clip_iff hS hI⟩

/-- Of five entries three are dropped: an open interval around no key, one whose ends are the wrong
way round, and a key at an exclusive end. A prefix without end is cut off, every key becomes the
interval itself. -/
theorem clip_keeps_meeting_entries_open :
    let a : Key := ⟨[0x61]⟩
    let last : Key := ⟨[0xFF, 0xFF]⟩
    let S : Selection :=
      ⟨[.interval (.ioo a a.next), .interval (.startingWith ⟨[0xFF]⟩), .key a,
        .interval (.icc last a), .interval (.ofFlags .empty true .empty true)]⟩
    let I : Interval := .ioc a last ∩ .infinite
    (∀ J, .interval J ∈ S.entries → J.Reachable) ∧ I.Reachable ∧
      (S.clip I).entries = [.interval (.icc ⟨[0xFF]⟩ last), .interval (.ioc a last)] ∧
      (∀ e ∈ (S.clip I).entries, ∃ k, k ∈ e) ∧ ∃ k, k ∈ S ∧ k ∈ I := by
  intro a last S I
  have hS : ∀ J, .interval J ∈ S.entries → J.Reachable := by
    intro J hJ
    simp only [S, List.mem_cons, Entry.interval.injEq, reduceCtorEq, false_or, List.not_mem_nil,
      or_false] at hJ
    rcases hJ with rfl | rfl | rfl | rfl
    · exact .ioo a a.next
    · exact .startingWith ⟨[0xFF]⟩
    · exact .icc last a
    · exact .ofFlags .empty true .empty true
  have hI : I.Reachable := .inter (.ioc a last) .infinite
  obtain ⟨hentries, hkeys, hempty⟩ := clip_keeps_meeting_entries hS hI
  have hleft : (S.clip I).entries =
      [.interval (.icc ⟨[0xFF]⟩ last), .interval (.ioc a last)] := by
    rw [hentries]
    decide
  refine ⟨hS, hI, hleft, hkeys, not_not.mp (mt hempty.mpr ?_)⟩
  rw [isEmpty, hleft]
  exact Bool.false_ne_true

end Selection

end SortedTable
