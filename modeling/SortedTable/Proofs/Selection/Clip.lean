import SortedTable.Proofs.Interval.Overlap
import SortedTable.Selection.Basic

/-!
# Clipping a selection

A clipped selection selects what the selection and the interval have in common
(`SortedTable.Selection.mem_clip`). The way it does so is by its entries, and two entries that
select the same keys can still be written differently; so it is another question which entries are
left when a selection is clipped more than once. The answer is that clipping acts by intersection:
to clip to one interval after another is to clip to the intersection of the two, entry by entry and
with the same endpoints.

For a single key this is membership in an intersection. For an interval it is associativity, but
for the entries that are dropped on the way, and those are the ones whose intersection has
forgotten its ends. What has no ends left is empty against the second interval too
(`SortedTable.Entry.clip?_bind_clip?`).
-/

namespace SortedTable

/-! ### Clipping one entry -/

namespace Entry

variable {I J : Interval} {k : Key}

/-- Whether the entry is an interval that counts as empty. -/
def isEmpty : Entry → Bool
  | key _ => false
  | interval I => I.isEmpty

theorem clip?_key_of_mem (h : k ∈ I) : (key k).clip? I = some (key k) := if_pos h

theorem clip?_key_of_notMem (h : k ∉ I) : (key k).clip? I = none := if_neg h

/-- An interval goes when its intersection has forgotten its ends. -/
theorem clip?_interval_of_eq_empty (h : J ∩ I = .empty) : (interval J).clip? I = none :=
  if_pos (Interval.isEmpty_inter.mpr h)

/-- Any other interval is narrowed. -/
theorem clip?_interval_of_ne_empty (h : J ∩ I ≠ .empty) :
    (interval J).clip? I = some (interval (J ∩ I)) :=
  if_neg (mt Interval.isEmpty_inter.mp h)

/-- **What is left of an entry selects what the entry and the interval have in common.** -/
theorem mem_clip?_iff {e : Entry} : (∃ e', e.clip? I = some e' ∧ k ∈ e') ↔ k ∈ e ∧ k ∈ I := by
  cases e with
  | key j =>
    by_cases hj : j ∈ I
    · rw [clip?_key_of_mem hj]
      simp only [Option.some.injEq, exists_eq_left', mem_key]
      exact ⟨fun hjk => ⟨hjk, hjk ▸ hj⟩, fun h => h.1⟩
    · rw [clip?_key_of_notMem hj]
      refine iff_of_false (by simp) ?_
      rintro ⟨hjk, hk⟩
      exact hj (mem_key.mp hjk ▸ hk)
  | interval J =>
    by_cases hJ : J ∩ I = .empty
    · rw [clip?_interval_of_eq_empty hJ]
      refine iff_of_false (by simp) fun h => Interval.not_mem_empty k ?_
      rw [← hJ]
      exact Interval.mem_inter.mpr h
    · rw [clip?_interval_of_ne_empty hJ]
      simp only [Option.some.injEq, exists_eq_left', mem_interval]
      exact Interval.mem_inter

/-- **Clipping one entry twice is clipping it to the intersection.** -/
theorem clip?_bind_clip? (e : Entry) (I J : Interval) :
    (e.clip? I).bind (fun e' => e'.clip? J) = e.clip? (I ∩ J) := by
  cases e with
  | key k =>
    by_cases hI : k ∈ I
    · rw [clip?_key_of_mem hI, Option.bind_some]
      by_cases hJ : k ∈ J
      · rw [clip?_key_of_mem hJ, clip?_key_of_mem (Interval.mem_inter.mpr ⟨hI, hJ⟩)]
      · rw [clip?_key_of_notMem hJ,
          clip?_key_of_notMem fun h => hJ (Interval.mem_inter.mp h).2]
    · rw [clip?_key_of_notMem hI,
        clip?_key_of_notMem fun h => hI (Interval.mem_inter.mp h).1]
      rfl
  | interval K =>
    have hassoc : K ∩ I ∩ J = K ∩ (I ∩ J) := Interval.inter_assoc K I J
    by_cases hI : K ∩ I = .empty
    · -- Dropped at the first clip: the intersection with both is empty as well.
      have hboth : K ∩ (I ∩ J) = .empty := by
        rw [← hassoc, hI]
        exact Interval.empty_inter J
      rw [clip?_interval_of_eq_empty hI, clip?_interval_of_eq_empty hboth]
      rfl
    · rw [clip?_interval_of_ne_empty hI, Option.bind_some]
      by_cases hJ : K ∩ I ∩ J = .empty
      · rw [clip?_interval_of_eq_empty hJ, clip?_interval_of_eq_empty (hassoc ▸ hJ)]
      · rw [clip?_interval_of_ne_empty hJ, clip?_interval_of_ne_empty (hassoc ▸ hJ), hassoc]

/-- Clipping to every key leaves an entry as it is, unless it counts as empty. -/
theorem clip?_infinite (e : Entry) :
    e.clip? .infinite = Option.guard (fun e => !e.isEmpty) e := by
  rcases e with k | J
  · rw [clip?_key_of_mem (Interval.mem_infinite k)]
    rfl
  · have hcollapse : J ∩ .infinite = J.collapse := Interval.inter_infinite J
    by_cases hJ : J.isEmpty = true
    · rw [clip?_interval_of_eq_empty (hcollapse.trans (Interval.collapse_of_isEmpty hJ))]
      simp [Option.guard, isEmpty, hJ]
    · have hne : J ∩ .infinite ≠ .empty := fun h =>
        hJ (Interval.collapse_eq_empty_iff.mp (hcollapse.symm.trans h))
      rw [clip?_interval_of_ne_empty hne, hcollapse, Interval.collapse_of_not_isEmpty hJ]
      simp [Option.guard, isEmpty, hJ]

end Entry

/-! ### Clipping all entries -/

namespace Selection

variable {k : Key}

/-- **A clipped selection selects what the selection and the interval have in common.** -/
theorem mem_clip {S : Selection} {I : Interval} : k ∈ S.clip I ↔ k ∈ S ∧ k ∈ I := by
  rw [mem_iff, mem_iff]
  constructor
  · rintro ⟨e', he', hk⟩
    obtain ⟨e, he, hclip⟩ := List.mem_filterMap.mp he'
    obtain ⟨hke, hkI⟩ := Entry.mem_clip?_iff.mp ⟨e', hclip, hk⟩
    exact ⟨⟨e, he, hke⟩, hkI⟩
  · rintro ⟨⟨e, he, hke⟩, hkI⟩
    obtain ⟨e', hclip, hk⟩ := Entry.mem_clip?_iff.mpr ⟨hke, hkI⟩
    exact ⟨e', List.mem_filterMap.mpr ⟨e, he, hclip⟩, hk⟩

/-- **Clipping twice is clipping to the intersection.** -/
theorem clip_clip (S : Selection) (I J : Interval) : (S.clip I).clip J = S.clip (I ∩ J) := by
  rw [clip, clip, clip, List.filterMap_filterMap]
  simp only [Entry.clip?_bind_clip?]

/-- Clipping to the same interval again changes nothing. -/
theorem clip_clip_self (S : Selection) (I : Interval) : (S.clip I).clip I = S.clip I := by
  have hentry : ∀ e : Entry, e.clip? (I ∩ I) = e.clip? I := by
    rintro (k | J)
    · by_cases hk : k ∈ I
      · rw [Entry.clip?_key_of_mem hk, Entry.clip?_key_of_mem (Interval.mem_inter.mpr ⟨hk, hk⟩)]
      · rw [Entry.clip?_key_of_notMem hk,
          Entry.clip?_key_of_notMem fun h => hk (Interval.mem_inter.mp h).1]
    · have hself : J ∩ (I ∩ I) = J ∩ I := by
        rw [← Interval.inter_assoc, Interval.inter_inter_self]
      rw [Entry.clip?, Entry.clip?, hself]
  rw [clip_clip, clip, clip]
  simp only [hentry]

/-- Clipping to every key drops the intervals that count as empty. -/
theorem clip_infinite (S : Selection) :
    S.clip .infinite = ⟨S.entries.filter fun e => !e.isEmpty⟩ := by
  have hentry : (fun e : Entry => e.clip? .infinite) = Option.guard fun e => !e.isEmpty :=
    funext Entry.clip?_infinite
  rw [clip, hentry, List.filterMap_eq_filter]

/-- **Clipping acts by intersection.** Clipped to one interval after another, in either order, a
selection has the entries that it has when clipped to the intersection; clipping to one interval
again changes nothing; and clipping to every key takes away the intervals that count as empty, and
nothing else. -/
theorem clip_acts_by_inter (S : Selection) (I J : Interval) :
    (S.clip I).clip J = S.clip (I ∩ J) ∧ (S.clip J).clip I = S.clip (I ∩ J) ∧
      (S.clip I).clip I = S.clip I ∧
      S.clip .infinite = ⟨S.entries.filter fun e => !e.isEmpty⟩ := by
  refine ⟨clip_clip S I J, ?_, clip_clip_self S I, clip_infinite S⟩
  rw [clip_clip, Interval.inter_comm]

end Selection

end SortedTable
