/-!
# Decimal numbers in texts

A number is written with digits, and with a sign in front of them if it is below 0. Whatever else
stands in a text next to a number is therefore not part of it: neither the blanks and the equals
signs of a record nor the commas and brackets around the ends of a stretch of time. So a number in a
text can be found, and it can be told from its digits (`SortedTable.Text.natRepr_injective`,
`SortedTable.Text.intRepr_injective`).
-/

namespace SortedTable

namespace Text

variable {m : Nat} {n : Int} {c : Char}

/-! ### The characters of a number -/

theorem isDigit_of_mem_natRepr (hc : c ∈ (Nat.repr m).toList) : c.isDigit = true := by
  rw [Nat.toList_repr] at hc
  exact Nat.isDigit_of_mem_toDigits (by decide) (by decide) hc

theorem isDigit_or_eq_of_mem_intRepr (hc : c ∈ (Int.repr n).toList) :
    c.isDigit = true ∨ c = '-' := by
  cases n with
  | ofNat m => exact Or.inl (isDigit_of_mem_natRepr hc)
  | negSucc m =>
    rw [Int.repr, String.toList_append, List.mem_append] at hc
    rcases hc with hc | hc
    · exact Or.inr (List.mem_singleton.mp hc)
    · exact Or.inl (isDigit_of_mem_natRepr hc)

/-- **What is no digit is in no number.** -/
theorem notMem_natRepr (hdigit : c.isDigit = false) : c ∉ (Nat.repr m).toList := by
  intro hc
  exact Bool.false_ne_true (hdigit.symm.trans (isDigit_of_mem_natRepr hc))

/-- **What is no digit and no sign is in no number with a sign.** -/
theorem notMem_intRepr (hdigit : c.isDigit = false) (hsign : c ≠ '-') :
    c ∉ (Int.repr n).toList := by
  intro hc
  rcases isDigit_or_eq_of_mem_intRepr hc with h | h
  · exact Bool.false_ne_true (hdigit.symm.trans h)
  · exact hsign h

/-! ### A number by its digits -/

/-- **Different numbers are written differently.** -/
theorem natRepr_injective : Function.Injective Nat.repr := by
  intro m m' h
  have hdigits : Nat.toDigits 10 m = Nat.toDigits 10 m' := by
    rw [← Nat.toList_repr, h, Nat.toList_repr]
  rw [← Nat.ofDigitChars_ten_toDigits (n := m), hdigits, Nat.ofDigitChars_ten_toDigits]

/-- No number without a sign is written as one with a sign. -/
theorem natRepr_ne_negSucc {m' : Nat} : Nat.repr m ≠ Int.repr (.negSucc m') := by
  intro h
  have hsign : '-' ∈ (Nat.repr m).toList := by
    rw [h, Int.repr, String.toList_append]
    exact List.mem_append_left _ (List.mem_singleton_self _)
  exact notMem_natRepr rfl hsign

/-- **Different integers are written differently.** -/
theorem intRepr_injective : Function.Injective Int.repr := by
  intro n n' h
  cases n with
  | ofNat m =>
    cases n' with
    | ofNat m' => exact congrArg Int.ofNat (natRepr_injective h)
    | negSucc m' => exact absurd h natRepr_ne_negSucc
  | negSucc m =>
    cases n' with
    | ofNat m' => exact absurd h.symm natRepr_ne_negSucc
    | negSucc m' =>
      have hdigits : Nat.repr m.succ = Nat.repr m'.succ := by
        rw [Int.repr, Int.repr] at h
        exact (String.append_right_inj _).mp h
      exact congrArg Int.negSucc (Nat.succ.inj (natRepr_injective hdigits))

end Text

end SortedTable
