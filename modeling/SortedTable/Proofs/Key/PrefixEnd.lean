import Mathlib.Order.Bounds.Basic
import SortedTable.Key.PrefixEnd
import SortedTable.Proofs.Key.Order

/-!
# The end of a prefix is where its keys end

Whether a key begins with a prefix is a question about its first bytes. This file answers it by the
order alone: a key begins with `p` exactly when it is at or above `p` and stops short of the end of
`p`, if there is one (`SortedTable.Key.startsWith_iff`).

Both sides are read one byte at a time, and the byte that decides is the last one that can be
raised. Behind it every byte of `p` is at its greatest value, so a key that has agreed with `p` so
far can only fall below `p` there. Up to it, a key that rises above `p` reaches the end of `p` or
passes it. `SortedTable.Key.stopsShort_cons_iff` is the one step of that reading, and it is the step
of `SortedTable.Key.raiseLast?`.

That the end of a prefix is the **least** key above all that begin with it is then a matter of
looking at one more key. A key below the end and above all keys with the prefix would be above the
prefix itself, so it would begin with the prefix and be above itself. The same key tells what it
means for a prefix to have no end: no key at all lies beyond it.
-/

namespace SortedTable

namespace Key

variable {b c : UInt8} {l m : List UInt8} {p q k j s : Key}

/-! ### Keys by their first byte -/

theorem mk_cons_lt_mk_cons : (⟨b :: l⟩ : Key) < ⟨c :: m⟩ ↔ b < c ∨ b = c ∧ (⟨l⟩ : Key) < ⟨m⟩ :=
  List.cons_lt_cons_iff

theorem mk_cons_le_mk_cons : (⟨b :: l⟩ : Key) ≤ ⟨c :: m⟩ ↔ b < c ∨ b = c ∧ (⟨l⟩ : Key) ≤ ⟨m⟩ :=
  List.cons_le_cons_iff

theorem not_mk_cons_le_empty : ¬(⟨b :: l⟩ : Key) ≤ empty := by
  rw [not_le, empty_lt_iff]
  simp [empty]

/-! ### Raising a byte -/

/-- **Raising a byte wraps around at its greatest value only.** -/
theorem toNat_add_one_iff : (b + 1).toNat = b.toNat + 1 ↔ b ≠ 0xFF := by
  have hb : b.toNat < 256 := b.toNat_lt
  have hgreatest : b = 0xFF ↔ b.toNat = 255 := UInt8.toNat_inj.symm
  have hsum : (b + 1).toNat = (b.toNat + 1) % 256 := UInt8.toNat_add b 1
  rw [ne_eq, hgreatest, hsum]
  omega

/-- Nothing lies between a byte and the one it is raised to. -/
theorem lt_add_one_iff_le (hb : b ≠ 0xFF) : c < b + 1 ↔ c ≤ b := by
  rw [UInt8.lt_iff_toNat_lt, toNat_add_one_iff.mpr hb, UInt8.le_iff_toNat_le]
  exact Nat.lt_succ_iff

theorem le_greatest (c : UInt8) : c ≤ 0xFF :=
  UInt8.le_iff_toNat_le.mpr (Nat.le_of_lt_succ c.toNat_lt)

/-! ### The end of a prefix, by its first byte -/

theorem prefixEnd?_cons_of_some (h : prefixEnd? ⟨l⟩ = some s) (b : UInt8) :
    prefixEnd? ⟨b :: l⟩ = some ⟨b :: s.bytes⟩ := by
  obtain ⟨raised, hraised, rfl⟩ := Option.map_eq_some_iff.mp h
  simp [prefixEnd?, raiseLast?, hraised]

theorem prefixEnd?_cons_of_none (h : prefixEnd? ⟨l⟩ = none) (b : UInt8) :
    prefixEnd? ⟨b :: l⟩ = if b = 0xFF then none else some ⟨[b + 1]⟩ := by
  have hraise : raiseLast? l = none := Option.map_eq_none_iff.mp h
  rw [prefixEnd?, raiseLast?, hraise]
  exact apply_ite _ _ _ _

/-! ### Beginning with a prefix, by the order -/

/-- **A key stops short of the end of a prefix** if it is below that end, or if there is none. -/
def StopsShort (p k : Key) : Prop := ∀ s, p.prefixEnd? = some s → k < s

theorem stopsShort_iff_lt (h : p.prefixEnd? = some s) : p.StopsShort k ↔ k < s := by
  refine ⟨fun hk => hk s h, fun hk s' hs' => ?_⟩
  rwa [← Option.some.inj (h.symm.trans hs')]

theorem stopsShort_of_none (h : p.prefixEnd? = none) : p.StopsShort k := by
  intro s hs
  cases h.symm.trans hs

/-- **One byte of the reading**: a key that is not below a prefix at the first byte stops short of
its end if it agrees with the prefix there and stops short of the end of the rest. -/
theorem stopsShort_cons_iff (h : b ≤ c) :
    StopsShort ⟨b :: l⟩ ⟨c :: m⟩ ↔ b = c ∧ StopsShort ⟨l⟩ ⟨m⟩ := by
  have hcb : ¬c < b := UInt8.not_lt.mpr h
  -- The byte that is raised lies behind the first one, or it is the first one, or there is none.
  cases hl : prefixEnd? ⟨l⟩ with
  | some s =>
    rw [stopsShort_iff_lt hl, stopsShort_iff_lt (prefixEnd?_cons_of_some hl b),
      mk_cons_lt_mk_cons, or_iff_right hcb]
    exact and_congr_left' eq_comm
  | none =>
    have hcons := prefixEnd?_cons_of_none hl b
    rw [and_iff_left (stopsShort_of_none hl)]
    by_cases hb : b = 0xFF
    · rw [if_pos hb] at hcons
      exact iff_of_true (stopsShort_of_none hcons) (UInt8.le_antisymm h (hb ▸ le_greatest c))
    · have hnil : ¬(⟨m⟩ : Key) < ⟨[]⟩ := not_lt.mpr (empty_le ⟨m⟩)
      rw [if_neg hb] at hcons
      rw [stopsShort_iff_lt hcons, mk_cons_lt_mk_cons, or_iff_left fun hm => hnil hm.2,
        lt_add_one_iff_le hb]
      exact ⟨fun hc => UInt8.le_antisymm h hc, fun hc => hc ▸ UInt8.le_refl b⟩

/-- Bytes begin with other bytes if, as keys, they are not below them and stop short of their
end. -/
theorem isPrefix_iff_le_and_stopsShort :
    l <+: m ↔ (⟨l⟩ : Key) ≤ ⟨m⟩ ∧ StopsShort ⟨l⟩ ⟨m⟩ := by
  induction l generalizing m with
  | nil => exact iff_of_true List.nil_prefix ⟨empty_le ⟨m⟩, stopsShort_of_none rfl⟩
  | cons b l ih =>
    cases m with
    | nil => exact iff_of_false (by simp) fun h => not_mk_cons_le_empty h.1
    | cons c m =>
      rw [List.cons_prefix_cons, ih, mk_cons_le_mk_cons]
      constructor
      · rintro ⟨rfl, hle, hshort⟩
        exact ⟨Or.inr ⟨rfl, hle⟩, (stopsShort_cons_iff (UInt8.le_refl b)).mpr ⟨rfl, hshort⟩⟩
      · rintro ⟨hlt | ⟨rfl, hle⟩, hshort⟩
        · have heq : b = c := ((stopsShort_cons_iff (UInt8.le_of_lt hlt)).mp hshort).1
          exact absurd heq (UInt8.ne_of_lt hlt)
        · exact ⟨rfl, hle, ((stopsShort_cons_iff (UInt8.le_refl b)).mp hshort).2⟩

theorem startsWith_iff_isPrefix : k.startsWith p = true ↔ p.bytes <+: k.bytes :=
  List.isPrefixOf_iff_prefix

/-- **A key begins with a prefix exactly when it lies between the prefix and its end.** -/
theorem startsWith_iff : k.startsWith p = true ↔ p ≤ k ∧ StopsShort p k :=
  startsWith_iff_isPrefix.trans isPrefix_iff_le_and_stopsShort

theorem startsWith_self (p : Key) : p.startsWith p = true :=
  startsWith_iff_isPrefix.mpr (List.prefix_refl p.bytes)

/-- Beginning with a prefix is beginning with all that it begins with. -/
theorem startsWith_trans (hkp : k.startsWith p = true) (hpq : p.startsWith q = true) :
    k.startsWith q = true := by
  rw [startsWith_iff_isPrefix] at hkp hpq ⊢
  exact hpq.trans hkp

/-- **Two prefixes of one key are nested**: one of them begins with the other. -/
theorem startsWith_or_startsWith (hkp : k.startsWith p = true) (hkq : k.startsWith q = true) :
    p.startsWith q = true ∨ q.startsWith p = true := by
  rw [startsWith_iff_isPrefix] at hkp hkq
  rw [startsWith_iff_isPrefix, startsWith_iff_isPrefix]
  exact List.prefix_or_prefix_of_prefix hkq hkp

/-! ### Beyond a prefix -/

/-- **A key lies beyond a prefix** if it is above every key that begins with it. -/
def Beyond (p j : Key) : Prop := ∀ k : Key, k.startsWith p = true → k < j

/-- What lies beyond a prefix does not stop short of its end. -/
theorem Beyond.not_stopsShort (h : p.Beyond j) : ¬StopsShort p j := by
  intro hshort
  have hp : p < j := h p (startsWith_self p)
  exact lt_irrefl j (h j (startsWith_iff.mpr ⟨hp.le, hshort⟩))

/-- The end of a prefix lies beyond it. -/
theorem beyond_of_prefixEnd? (h : p.prefixEnd? = some s) : p.Beyond s := by
  intro k hk
  exact (startsWith_iff.mp hk).2 s h

theorem isLeast_of_prefixEnd? (h : p.prefixEnd? = some s) : IsLeast {j | p.Beyond j} s := by
  refine ⟨beyond_of_prefixEnd? h, fun j hj => ?_⟩
  by_contra hjs
  exact hj.not_stopsShort ((stopsShort_iff_lt h).mpr (not_le.mp hjs))

/-- **Only a prefix without an end has nothing beyond it.** -/
theorem prefixEnd?_eq_none_iff : p.prefixEnd? = none ↔ ¬∃ j, p.Beyond j := by
  constructor
  · rintro h ⟨j, hj⟩
    exact hj.not_stopsShort (stopsShort_of_none h)
  · intro h
    cases hs : p.prefixEnd? with
    | none => rfl
    | some s => exact absurd ⟨s, beyond_of_prefixEnd? hs⟩ h

/-- What lies beyond a prefix lies beyond every longer one. -/
theorem Beyond.of_startsWith (hj : q.Beyond j) (h : p.startsWith q = true) : p.Beyond j :=
  fun k hk => hj k (startsWith_trans hk h)

/-- **The longer of two nested prefixes does not end later**: if the shorter one has an end, so has
the longer one, and it is the same key or one further down. -/
theorem exists_prefixEnd?_le (h : p.startsWith q = true) (hs : q.prefixEnd? = some s) :
    ∃ t, p.prefixEnd? = some t ∧ t ≤ s := by
  have hbeyond : p.Beyond s := (beyond_of_prefixEnd? hs).of_startsWith h
  have hsome : p.prefixEnd? ≠ none := fun hnone => prefixEnd?_eq_none_iff.mp hnone ⟨s, hbeyond⟩
  obtain ⟨t, ht⟩ := Option.ne_none_iff_exists'.mp hsome
  exact ⟨t, ht, (isLeast_of_prefixEnd? ht).2 hbeyond⟩

/-- The end of a prefix is the only key that can be the least one beyond it. -/
theorem prefixEnd?_eq_some_iff_isLeast : p.prefixEnd? = some s ↔ IsLeast {j | p.Beyond j} s := by
  refine ⟨isLeast_of_prefixEnd?, fun h => ?_⟩
  cases hs : p.prefixEnd? with
  | none => exact absurd ⟨s, h.1⟩ (prefixEnd?_eq_none_iff.mp hs)
  | some s' => exact congrArg some ((isLeast_of_prefixEnd? hs).unique h)

/-! ### How the end is found -/

/-- The end of a prefix has one byte raised, the last one that can be, and nothing behind it. -/
theorem prefixEnd?_eq_some_iff_bytes : p.prefixEnd? = some s ↔
    ∃ front b tail, p.bytes = front ++ b :: tail ∧ (∀ c ∈ tail, c = 0xFF) ∧
      s.bytes = front ++ [b + 1] ∧ (b + 1).toNat = b.toNat + 1 := by
  have hs : p.prefixEnd? = some s ↔ raiseLast? p.bytes = some s.bytes := by
    cases s
    simp [prefixEnd?]
  rw [hs, raiseLast?_eq_some_iff]
  simp only [toNat_add_one_iff]
  constructor
  · rintro ⟨front, b, tail, hp, hb, htail, hend⟩
    exact ⟨front, b, tail, hp, htail, hend, hb⟩
  · rintro ⟨front, b, tail, hp, htail, hend, hb⟩
    exact ⟨front, b, tail, hp, hb, htail, hend⟩

/-- **The end of a prefix is the least key beyond it**, and where there is none, nothing lies beyond
the prefix. That is so exactly if the prefix is empty or all of its bytes are at their greatest
value. In every other case the end is the prefix up to its last byte that can be raised, with that
byte raised by one and not wrapped around. -/
theorem prefixEnd_is_least_beyond (p : Key) :
    (∀ s, p.prefixEnd? = some s ↔ IsLeast {j | p.Beyond j} s) ∧
      (p.prefixEnd? = none ↔ ¬∃ j, p.Beyond j) ∧
      (p.prefixEnd? = none ↔ p = .empty ∨ ∀ b ∈ p.bytes, b = 0xFF) ∧
      ∀ s, p.prefixEnd? = some s ↔
        ∃ front b tail, p.bytes = front ++ b :: tail ∧ (∀ c ∈ tail, c = 0xFF) ∧
          s.bytes = front ++ [b + 1] ∧ (b + 1).toNat = b.toNat + 1 := by
  refine ⟨fun s => prefixEnd?_eq_some_iff_isLeast, prefixEnd?_eq_none_iff, ?_,
    fun s => prefixEnd?_eq_some_iff_bytes⟩
  rw [prefixEnd?, Option.map_eq_none_iff, raiseLast?_eq_none_iff, or_iff_right_of_imp]
  rintro rfl
  exact List.forall_mem_nil _

/-- The last byte that can be raised is the first one here, so two bytes are dropped; with that
byte at its greatest value too, there is no end. -/
theorem prefixEnd_is_least_beyond_dropped :
    let p : Key := ⟨[0x61, 0xFF, 0xFF]⟩
    let q : Key := ⟨[0xFF, 0xFF, 0xFF]⟩
    p.prefixEnd? = some ⟨[0x62]⟩ ∧ IsLeast {j | p.Beyond j} ⟨[0x62]⟩ ∧ ¬∃ j, q.Beyond j := by
  intro p q
  have hp : p.prefixEnd? = some ⟨[0x62]⟩ :=
    ((prefixEnd_is_least_beyond p).2.2.2 ⟨[0x62]⟩).mpr
      ⟨[], 0x61, [0xFF, 0xFF], rfl, by simp, rfl, rfl⟩
  have hq : q.prefixEnd? = none :=
    (prefixEnd_is_least_beyond q).2.2.1.mpr (Or.inr (by simp [q]))
  exact ⟨hp, ((prefixEnd_is_least_beyond p).1 _).mp hp, (prefixEnd_is_least_beyond q).2.1.mp hq⟩

end Key

end SortedTable
