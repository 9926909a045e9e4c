import SortedTable.Proofs.Interval.Cut

/-!
# Endpoints in order, and the tighter of two

Two endpoints are compared in two ways, as lower ends by `SortedTable.Endpoint.compareLower` and as
upper ends by `SortedTable.Endpoint.compareUpper`. Both are the order of the cuts, read at a cut
that tells the endpoint. So both are total orders, and they tell apart any two endpoints that are
not the same. Kind by kind they are mirror images but for the keys, which are in the same order on
both sides (`SortedTable.Endpoint.compareLower_eq_match`,
`SortedTable.Endpoint.compareUpper_eq_match`).

That is more than what the endpoints admit would ask for. Over whole numbers, to leave out 4 and to
take in 5 admit the same numbers, and still the one comes before the other. What does hold is that
an endpoint further on admits no more than one before it, as a lower end; as an upper end, no less
(`SortedTable.Endpoint.admitsAbove_of_compareLower`,
`SortedTable.Endpoint.admitsBelow_of_compareUpper`).

To take the tighter of two lower ends is then to take the maximum of their cuts, of two upper ends
the minimum. The laws of the two operations are those of maxima and minima in a linear order, and
so is the fact that the tighter end admits what both ends admit.
-/

universe u

namespace SortedTable

namespace Endpoint

variable {α : Type u} [LinearOrder α] {a b : Endpoint α} {k : α}

/-! ### The two orders -/

omit [LinearOrder α] in
/-- **Lower ends, kind by kind.** The unbounded end is the first, keys come in their order, and of
two ends at one key the exclusive one comes after. -/
theorem compareLower_eq_match [Ord α] (a b : Endpoint α) :
    compareLower a b = match a, b with
      | unbounded, unbounded => .eq
      | unbounded, _ => .lt
      | _, unbounded => .gt
      | inclusive x, inclusive y | exclusive x, exclusive y => compare x y
      | inclusive x, exclusive y => (compare x y).then .lt
      | exclusive x, inclusive y => (compare x y).then .gt := by
  cases a <;> cases b <;> rfl

omit [LinearOrder α] in
/-- **Upper ends, kind by kind.** The unbounded end is the last, keys come in their order, and of
two ends at one key the exclusive one comes before. -/
theorem compareUpper_eq_match [Ord α] (a b : Endpoint α) :
    compareUpper a b = match a, b with
      | unbounded, unbounded => .eq
      | unbounded, _ => .gt
      | _, unbounded => .lt
      | inclusive x, inclusive y | exclusive x, exclusive y => compare x y
      | inclusive x, exclusive y => (compare x y).then .gt
      | exclusive x, inclusive y => (compare x y).then .lt := by
  cases a <;> cases b <;> rfl

/-- Lower ends are compared by their cuts, transitively and the same from either side. -/
instance : Std.TransCmp (@compareLower α _) :=
  inferInstanceAs (Std.TransCmp (compareOn (@lowerCut α)))

/-- Upper ends are compared by their cuts, transitively and the same from either side. -/
instance : Std.TransCmp (@compareUpper α _) :=
  inferInstanceAs (Std.TransCmp (compareOn (@upperCut α)))

/-- **No two lower ends come at the same place.** -/
instance : Std.LawfulEqCmp (@compareLower α _) where
  eq_of_compare h := lowerCut_inj.mp (compare_eq_iff_eq.mp h)

/-- **No two upper ends come at the same place.** -/
instance : Std.LawfulEqCmp (@compareUpper α _) where
  eq_of_compare h := upperCut_inj.mp (compare_eq_iff_eq.mp h)

/-! ### What is admitted along the orders -/

/-- **A lower end further on admits no more.** -/
theorem admitsAbove_of_compareLower (h : compareLower a b ≠ .gt) (hk : b.admitsAbove k = true) :
    a.admitsAbove k = true := by
  have hcut : a.lowerCut ≤ b.lowerCut := compare_le_iff_le.mp h
  exact admitsAbove_iff.mpr (hcut.trans (admitsAbove_iff.mp hk))

/-- **An upper end further on admits no less.** -/
theorem admitsBelow_of_compareUpper (h : compareUpper a b ≠ .gt) (hk : a.admitsBelow k = true) :
    b.admitsBelow k = true := by
  have hcut : a.upperCut ≤ b.upperCut := compare_le_iff_le.mp h
  exact admitsBelow_iff.mpr ((admitsBelow_iff.mp hk).trans hcut)

/-- The tighter of two lower ends admits what both admit. -/
theorem admitsAbove_tighterLower :
    (a.tighterLower b).admitsAbove k = (a.admitsAbove k && b.admitsAbove k) := by
  rw [Bool.eq_iff_iff, Bool.and_eq_true]
  simp only [admitsAbove_iff, lowerCut_tighterLower, max_le_iff]

/-- The tighter of two upper ends admits what both admit. -/
theorem admitsBelow_tighterUpper :
    (a.tighterUpper b).admitsBelow k = (a.admitsBelow k && b.admitsBelow k) := by
  rw [Bool.eq_iff_iff, Bool.and_eq_true]
  simp only [admitsBelow_iff, upperCut_tighterUpper, le_min_iff]

/-! ### The laws of the tighter end -/

instance : Std.Commutative (@tighterLower α _) where
  comm a b := by
    rw [← lowerCut_inj, lowerCut_tighterLower, lowerCut_tighterLower, max_comm]

instance : Std.Associative (@tighterLower α _) where
  assoc a b c := by
    rw [← lowerCut_inj]
    simp only [lowerCut_tighterLower, max_assoc]

instance : Std.IdempotentOp (@tighterLower α _) where
  idempotent a := by
    rw [← lowerCut_inj, lowerCut_tighterLower, max_self]

instance : Std.Commutative (@tighterUpper α _) where
  comm a b := by
    rw [← upperCut_inj, upperCut_tighterUpper, upperCut_tighterUpper, min_comm]

instance : Std.Associative (@tighterUpper α _) where
  assoc a b c := by
    rw [← upperCut_inj]
    simp only [upperCut_tighterUpper, min_assoc]

instance : Std.IdempotentOp (@tighterUpper α _) where
  idempotent a := by
    rw [← upperCut_inj, upperCut_tighterUpper, min_self]

/-- **Endpoints are totally ordered, and the tighter of two is the better bound in that order.**
Over any linear order of keys, each of the two comparisons is transitive, gives the opposite result
for the endpoints the other way round, and gives that they are equal only for the same endpoint. A
lower end admits all that a lower end after it admits, an upper end all that an upper end before it
admits. To take the tighter of two ends is commutative, associative and idempotent, and the tighter
one admits exactly the keys that both of them admit. -/
theorem tighter_ends_of_total_orders (α : Type u) [LinearOrder α] :
    ((Std.TransCmp (@compareLower α _) ∧ Std.LawfulEqCmp (@compareLower α _)) ∧
        Std.TransCmp (@compareUpper α _) ∧ Std.LawfulEqCmp (@compareUpper α _)) ∧
      (∀ a b : Endpoint α, compareLower a b ≠ .gt →
        ∀ k, b.admitsAbove k = true → a.admitsAbove k = true) ∧
      (∀ a b : Endpoint α, compareUpper a b ≠ .gt →
        ∀ k, a.admitsBelow k = true → b.admitsBelow k = true) ∧
      (Std.Commutative (@tighterLower α _) ∧ Std.Associative (@tighterLower α _) ∧
        Std.IdempotentOp (@tighterLower α _)) ∧
      (Std.Commutative (@tighterUpper α _) ∧ Std.Associative (@tighterUpper α _) ∧
        Std.IdempotentOp (@tighterUpper α _)) ∧
      ∀ (a b : Endpoint α) (k : α),
        (a.tighterLower b).admitsAbove k = (a.admitsAbove k && b.admitsAbove k) ∧
          (a.tighterUpper b).admitsBelow k = (a.admitsBelow k && b.admitsBelow k) :=
  ⟨⟨⟨inferInstance, inferInstance⟩, inferInstance, inferInstance⟩,
    fun _ _ h _ hk => admitsAbove_of_compareLower h hk,
    fun _ _ h _ hk => admitsBelow_of_compareUpper h hk,
    ⟨inferInstance, inferInstance, inferInstance⟩, ⟨inferInstance, inferInstance, inferInstance⟩,
    fun _ _ _ => ⟨admitsAbove_tighterLower, admitsBelow_tighterUpper⟩⟩

/-- To take in 5 and to leave it out: as lower ends in this order, as upper ends in the other. On
both sides it is the end that leaves 5 out that is the tighter. -/
theorem tighter_ends_of_total_orders_shared :
    let held : Endpoint ℕ := .inclusive 5
    let left : Endpoint ℕ := .exclusive 5
    compareLower held left = .lt ∧ compareUpper left held = .lt ∧
      left.admitsAbove 6 = true ∧ held.admitsAbove 6 = true ∧
      left.admitsBelow 4 = true ∧ held.admitsBelow 4 = true ∧
      held.tighterLower left = left ∧ left.tighterLower held = left ∧
      held.tighterUpper left = left ∧ left.tighterUpper held = left := by
  intro held left
  obtain ⟨-, habove, hbelow, hlower, hupper, -⟩ := tighter_ends_of_total_orders ℕ
  have hcommLower := hlower.1.comm
  have hcommUpper := hupper.1.comm
  have hheldLower : held.tighterLower left = left := by decide
  have hheldUpper : held.tighterUpper left = left := by decide
  refine ⟨by decide, by decide, by decide, habove held left (by decide) 6 (by decide), by decide,
    hbelow left held (by decide) 4 (by decide), hheldLower, ?_, hheldUpper, ?_⟩
  · rw [hcommLower, hheldLower]
  · rw [hcommUpper, hheldUpper]

end Endpoint

end SortedTable
