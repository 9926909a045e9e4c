import SortedTable.Key.Basic

/-!
# Where the keys with a prefix end

The keys that begin with `p` form one unbroken stretch of the key order, starting at `p` itself.
`SortedTable.Key.prefixEnd?` is the key right after that stretch: the least key above every key
beginning with `p`.

It is an increment, but not of a number: a byte that is already at its greatest value does not
carry into the byte before it and become zero, it disappears. So the last byte below `0xFF` goes
up by one and everything after it is dropped. Where no byte is below `0xFF`, the empty prefix
included, the stretch runs to the end of the order and there is no such key.
-/

namespace SortedTable

namespace Key

/-- Raises the last byte that can be raised and drops what follows it; `none` if every byte is
at its greatest value. -/
def raiseLast? : List UInt8 → Option (List UInt8)
  | [] => none
  | b :: rest =>
    match raiseLast? rest with
    | some raised => some (b :: raised)
    | none => if b = 0xFF then none else some [b + 1]

/-- **The end of a prefix**: the least key above every key that begins with `p`, if there is
one. -/
def prefixEnd? (p : Key) : Option Key := (raiseLast? p.bytes).map Key.mk

/-- There is nothing to raise exactly when every byte is `0xFF`. -/
theorem raiseLast?_eq_none_iff {l : List UInt8} : raiseLast? l = none ↔ ∀ b ∈ l, b = 0xFF := by
  induction l with
  | nil => simp [raiseLast?]
  | cons b rest ih =>
    rw [raiseLast?]
    cases h : raiseLast? rest with
    | some raised =>
      have hrest : ¬∀ c ∈ rest, c = 0xFF := fun hc => by simp [ih.mpr hc] at h
      refine iff_of_false (by simp) fun hall => hrest fun c hc => hall c (List.mem_cons_of_mem b hc)
    | none =>
      have hrest := ih.mp h
      by_cases hb : b = 0xFF
      · simpa [hb] using hrest
      · simp [hb]

/-- The byte raised is below `0xFF`, so raising it never wraps around. -/
theorem raiseLast?_eq_some_iff {l s : List UInt8} :
    raiseLast? l = some s ↔
      ∃ front b tail, l = front ++ b :: tail ∧ b ≠ 0xFF ∧ (∀ c ∈ tail, c = 0xFF) ∧
        s = front ++ [b + 1] := by
  induction l generalizing s with
  | nil => simp [raiseLast?]
  | cons a rest ih =>
    rw [raiseLast?]
    cases h : raiseLast? rest with
    | some raised =>
      obtain ⟨front, b, tail, rfl, hb, htail, rfl⟩ := ih.mp h
      constructor
      · rintro hs
        exact ⟨a :: front, b, tail, rfl, hb, htail, by simpa using hs.symm⟩
      · rintro ⟨front', b', tail', hl, hb', htail', rfl⟩
        cases front' with
        | nil =>
          obtain ⟨rfl, rfl⟩ := List.cons.inj hl
          exact absurd (htail' b (by simp)) hb
        | cons a' front' =>
          obtain ⟨rfl, hrest⟩ := List.cons.inj hl
          have h' := ih.mpr ⟨front', b', tail', hrest, hb', htail', rfl⟩
          rw [h] at h'
          exact congrArg (fun o => o.map (List.cons a)) h'
    | none =>
      have hrest := raiseLast?_eq_none_iff.mp h
      by_cases ha : a = 0xFF
      · simp only [ha, if_true, reduceCtorEq, false_iff]
        rintro ⟨front, b, tail, hl, hb, -, -⟩
        have : b ∈ 0xFF :: rest := hl ▸ (by simp)
        rcases List.mem_cons.mp this with hb' | hb'
        · exact hb hb'
        · exact hb (hrest b hb')
      · simp only [ha, if_false, Option.some.injEq]
        constructor
        · rintro rfl
          exact ⟨[], a, rest, rfl, ha, hrest, rfl⟩
        · rintro ⟨front, b, tail, hl, hb, -, rfl⟩
          cases front with
          | nil =>
            obtain ⟨rfl, -⟩ := List.cons.inj hl
            rfl
          | cons a' front =>
            obtain ⟨-, rfl⟩ := List.cons.inj hl
            exact absurd (hrest b (by simp)) hb

end Key

end SortedTable
