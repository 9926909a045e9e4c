import SortedTable.Proofs.Interval.Overlap

/-!
# Bounds that are refused

Endpoints are never checked when an interval is made, and an interval that holds nothing is a legal
one. Whoever takes bounds from someone else may want to know better, and asks
`SortedTable.Interval.validate`. What it refuses are two keys with nothing between them; so a
refusal has to be about two keys, and about all others.

The first is a matter of the endpoints: both of them name a key
(`SortedTable.Interval.BetweenKeys`), and these are the keys that the refusal names. The second is
asked of the endpoints as well, and is not seen from them: that the ends have crossed, or enclose a
gap, is that no key lies between them (`SortedTable.Interval.BetweenKeys.isEmpty_iff`). The one
interval for which this fails is unbounded below and never refused.

An intersection is where crossed ends come up by themselves, with nobody having asked for them. It
does not hand them out. What an intersection gives is the conjunction of its members as far as keys
go (`SortedTable.Interval.mem_interAll`), and is never refused
(`SortedTable.Interval.validate_inter`).
-/

namespace SortedTable

namespace Interval

variable {I J : Interval} {lower upper : Endpoint Key} {lo hi k : Key}

/-! ### Intervals between two keys -/

/-- **An interval between two keys**: both of its ends name one, and may take it in or leave it
out. -/
def BetweenKeys (I : Interval) (lo hi : Key) : Prop :=
  ∃ lower upper, I = between lower upper ∧ lower.key? = some lo ∧ upper.key? = some hi

theorem betweenKeys_between_iff :
    (between lower upper).BetweenKeys lo hi ↔ lower.key? = some lo ∧ upper.key? = some hi := by
  constructor
  · rintro ⟨l, u, heq, hlo, hhi⟩
    obtain ⟨rfl, rfl⟩ := between.inj heq
    exact ⟨hlo, hhi⟩
  · rintro ⟨hlo, hhi⟩
    exact ⟨lower, upper, rfl, hlo, hhi⟩

theorem not_betweenKeys_empty : ¬empty.BetweenKeys lo hi := by
  rintro ⟨lower, upper, heq, -⟩
  cases heq

/-- The other intervals are unbounded on some side, or the one that was found to hold nothing. -/
theorem not_exists_betweenKeys_iff : (¬∃ lo hi, I.BetweenKeys lo hi) ↔
    I = empty ∨ (∃ upper, I = between .unbounded upper) ∨
      ∃ lower, I = between lower .unbounded := by
  rcases I with _ | ⟨lower, upper⟩
  · exact iff_of_true (fun ⟨_, _, h⟩ => not_betweenKeys_empty h) (Or.inl rfl)
  · simp only [betweenKeys_between_iff]
    rcases lower with _ | lo | lo <;> rcases upper with _ | hi | hi <;> simp [Endpoint.key?]

/-- **Between two keys, counting as empty is holding nothing.** -/
theorem BetweenKeys.isEmpty_iff (h : I.BetweenKeys lo hi) : I.isEmpty = true ↔ ∀ k, k ∉ I := by
  obtain ⟨lower, upper, rfl, hlo, -⟩ := h
  rw [isEmpty_between_iff]
  refine and_iff_right ?_
  rintro rfl
  cases hlo

/-! ### What is refused -/

/-- **What is refused lies between two keys and counts as empty**, and the refusal names the two
keys. -/
theorem validate_eq_error_iff :
    I.validate = .error ⟨lo, hi⟩ ↔ I.BetweenKeys lo hi ∧ I.isEmpty = true := by
  rcases I with _ | ⟨lower, upper⟩
  · exact iff_of_false (by simp [validate]) fun h => not_betweenKeys_empty h.1
  · rw [betweenKeys_between_iff, validate]
    rcases hlower : lower.key? with _ | start
    · simp
    rcases hupper : upper.key? with _ | stop
    · simp
    by_cases hempty : (between lower upper).isEmpty = true
    · simp [hempty]
    · simp [hempty]

/-- What is not refused passes. -/
theorem validate_eq_ok_iff :
    I.validate = .ok () ↔ ¬∃ lo hi, I.BetweenKeys lo hi ∧ I.isEmpty = true := by
  simp only [← validate_eq_error_iff]
  rcases I.validate with ⟨lo, hi⟩ | _
  · exact iff_of_false (by simp) fun h => h ⟨lo, hi, rfl⟩
  · exact iff_of_true rfl (by simp)

/-- **Two keys are refused as bounds exactly if no key lies between them.** An interval is refused
if both of its ends name a key and it holds nothing; the refusal names the key of the lower end and
the key of the upper end, in this order. Any other interval passes: the one that was found to hold
nothing, whatever is unbounded on some side, and whatever holds a key. -/
theorem validate_refuses_keyless (I : Interval) :
    (∀ lo hi, I.validate = .error ⟨lo, hi⟩ ↔ I.BetweenKeys lo hi ∧ ∀ k, k ∉ I) ∧
      (I.validate = .ok () ↔ I = empty ∨ (∃ upper, I = between .unbounded upper) ∨
        (∃ lower, I = between lower .unbounded) ∨ ∃ k, k ∈ I) := by
  have hrefused : ∀ lo hi, (I.BetweenKeys lo hi ∧ I.isEmpty = true) ↔
      I.BetweenKeys lo hi ∧ ∀ k, k ∉ I :=
    fun lo hi => and_congr_right BetweenKeys.isEmpty_iff
  refine ⟨fun lo hi => validate_eq_error_iff.trans (hrefused lo hi), ?_⟩
  have hother := not_exists_betweenKeys_iff (I := I)
  rw [validate_eq_ok_iff]
  simp only [hrefused, exists_and_right, not_and_or, not_forall, not_not]
  rw [hother, or_assoc, or_assoc]

/-- The gap above a key is refused with either end left out, and not with one of them taken in. -/
example :
    let a : Key := ⟨[0x61]⟩
    (ioo a a.next).validate = .error ⟨a, a.next⟩ ∧ (ico a a).validate = .error ⟨a, a⟩ ∧
      (ioc a a.next).validate = .ok () ∧ (ico a a.next).validate = .ok () := by decide

/-! ### An intersection is never refused -/

/-- **The intersection of some intervals holds the keys that all of them hold.** -/
theorem mem_interAll {rest : List Interval} :
    k ∈ interAll I rest ↔ ∀ J ∈ I :: rest, k ∈ J := by
  -- On the list, for any start: `I ∩ J` takes the place of the first two members.
  induction rest generalizing I with
  | nil => rw [interAll_nil, List.forall_mem_singleton]
  | cons J rest ih =>
    rw [interAll_cons, ih, List.forall_mem_cons, List.forall_mem_cons, List.forall_mem_cons,
      mem_inter, and_assoc]

/-- **An intersection passes**: had its ends crossed, it would have forgotten them. -/
theorem validate_inter (I J : Interval) : (I ∩ J).validate = .ok () := by
  rw [validate_eq_ok_iff]
  rintro ⟨lo, hi, hkeys, hempty⟩
  rw [isEmpty_inter.mp hempty] at hkeys
  exact not_betweenKeys_empty hkeys

/-- **Intersection is conjunction.** The intersection of some intervals, taken in one after another
from the left, holds a key exactly if each of them does. The intersection of two is never refused,
whatever is said of the two, and it counts as empty only if it is `empty`. -/
theorem interAll_is_conjunction :
    (∀ (I : Interval) (rest : List Interval) (k : Key),
        k ∈ interAll I rest ↔ ∀ J ∈ I :: rest, k ∈ J) ∧
      ∀ I J : Interval, (I ∩ J).validate = .ok () ∧
        ((I ∩ J).isEmpty = true ↔ I ∩ J = empty) :=
  ⟨fun _ _ _ => mem_interAll, fun I J => ⟨validate_inter I J, isEmpty_inter⟩⟩

/-- Two intervals that share a rim, and a prefix that starts there: the rim is in all three, and the
next key is not in the first. Bounds the wrong way round are refused, and pass once they have been
intersected with every key. -/
theorem interAll_is_conjunction_rim :
    let a : Key := ⟨[0x61]⟩
    let m : Key := ⟨[0x6D]⟩
    let rest : List Interval := [icc m ⟨[0x7A]⟩, startingWith m]
    (∀ J ∈ icc a m :: rest, m ∈ J) ∧ m ∈ interAll (icc a m) rest ∧
      m.next ∉ interAll (icc a m) rest ∧ (ico m a).validate = .error ⟨m, a⟩ ∧
      (ico m a ∩ infinite).validate = .ok () := by
  intro a m rest
  have hall : ∀ J ∈ icc a m :: rest, m ∈ J := by
    simp only [rest, List.forall_mem_cons]
    decide
  have hout : ¬∀ J ∈ icc a m :: rest, m.next ∈ J := fun h =>
    absurd (h (icc a m) List.mem_cons_self) (by decide)
  have hmem := interAll_is_conjunction.1 (icc a m) rest
  exact ⟨hall, (hmem m).mpr hall, mt (hmem m.next).mp hout, by decide,
    (interAll_is_conjunction.2 (ico m a) infinite).1⟩

end Interval

end SortedTable
