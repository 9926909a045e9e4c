/-!
# Runs

A state, and a step that changes it and gives something back: sessions, workspaces and hosted
workspaces are all of this kind, and all of them are run by taking one step after another
(`SortedTable.runSteps`). What can be said of runs for any step is said here.

A run is followed by the state before each place, `SortedTable.stateBefore`. What the step at a
place gives back depends on that state alone (`SortedTable.getElem?_runSteps`), and the states go
from place to place by single steps (`SortedTable.stateBefore_succ`).

What is true of all single steps is then true of runs.

| of a step | of a run |
|---|---|
| what it keeps | `SortedTable.runSteps_invariant`, `SortedTable.stateBefore_invariant` |
| what it does to a part of the state | `SortedTable.view_runSteps` |
| what it gives back | `SortedTable.forall_mem_runSteps` |
| how it goes along with a step of another kind | `SortedTable.runSteps_simulation` |
-/

universe u v w x y

namespace SortedTable

variable {σ : Type u} {α : Type v} {β : Type w} {τ : Type x} {γ : Type y}
  {step : σ → α → σ × β} {s : σ} {a : α} {as : List α} {i : Nat}

/-- **Takes one step after another**, and collects what they give back. -/
def runSteps (step : σ → α → σ × β) (s : σ) : List α → σ × List β
  | [] => (s, [])
  | a :: rest =>
    let (s, b) := step s a
    let (s, bs) := runSteps step s rest
    (s, b :: bs)

/-- The state before the step at a place. -/
def stateBefore (step : σ → α → σ × β) (s : σ) (as : List α) (i : Nat) : σ :=
  (runSteps step s (as.take i)).1

/-! ### Place by place -/

/-- A run of two lists is a run of the one and then of the other. -/
theorem runSteps_append (step : σ → α → σ × β) (s : σ) (as bs : List α) :
    runSteps step s (as ++ bs) = ((runSteps step (runSteps step s as).1 bs).1,
      (runSteps step s as).2 ++ (runSteps step (runSteps step s as).1 bs).2) := by
  induction as generalizing s with
  | nil => rfl
  | cons a as ih => simp [runSteps, ih]

/-- **What the step at a place gives back** is what it gives back in the state before it. -/
theorem getElem?_runSteps (step : σ → α → σ × β) (s : σ) (as : List α) (i : Nat) :
    (runSteps step s as).2[i]? = as[i]?.map fun a => (step (stateBefore step s as i) a).2 := by
  induction as generalizing s i with
  | nil => rfl
  | cons a as ih =>
    cases i with
    | zero => rfl
    | succ i => exact ih (step s a).1 i

/-- **The state after a place is one step on.** -/
theorem stateBefore_succ (h : as[i]? = some a) :
    stateBefore step s as (i + 1) = (step (stateBefore step s as i) a).1 := by
  rw [stateBefore, List.take_add_one, h, Option.toList_some, runSteps_append]
  rfl

/-- Behind the last place nothing changes. -/
theorem stateBefore_succ_of_none (h : as[i]? = none) :
    stateBefore step s as (i + 1) = stateBefore step s as i := by
  rw [stateBefore, List.take_add_one, h, Option.toList_none, List.append_nil, stateBefore]

theorem stateBefore_length (step : σ → α → σ × β) (s : σ) (as : List α) :
    stateBefore step s as as.length = (runSteps step s as).1 := by
  rw [stateBefore, List.take_length]

/-! ### From one step to a run -/

/-- **What every step keeps, a run keeps.** -/
theorem runSteps_invariant {P : σ → Prop} (hstep : ∀ a ∈ as, ∀ s, P s → P (step s a).1) (h : P s) :
    P (runSteps step s as).1 := by
  induction as generalizing s with
  | nil => exact h
  | cons a as ih =>
    obtain ⟨ha, has⟩ := List.forall_mem_cons.mp hstep
    exact ih has (ha s h)

/-- **What holds of all that single steps give back** holds of all that a run gives back. The steps
are taken in states with a property that they keep. -/
theorem forall_mem_runSteps {P : σ → Prop} {Q : β → Prop}
    (hstep : ∀ a ∈ as, ∀ s, P s → P (step s a).1 ∧ Q (step s a).2) (h : P s) :
    ∀ b ∈ (runSteps step s as).2, Q b := by
  induction as generalizing s with
  | nil => exact fun b hb => by cases hb
  | cons a as ih =>
    obtain ⟨ha, has⟩ := List.forall_mem_cons.mp hstep
    obtain ⟨hkept, hgiven⟩ := ha s h
    exact List.forall_mem_cons.mpr ⟨hgiven, ih has hkept⟩

/-- **What every step keeps is kept from place to place.** -/
theorem stateBefore_invariant {P : σ → Prop} {j : Nat} (hstep : ∀ a s, P s → P (step s a).1)
    (h : P (stateBefore step s as i)) (hij : i ≤ j) : P (stateBefore step s as j) := by
  induction hij with
  | refl => exact h
  | @step j _ ih =>
    cases ha : as[j]? with
    | none =>
      rw [stateBefore_succ_of_none ha]
      exact ih
    | some a =>
      rw [stateBefore_succ ha]
      exact hstep a _ ih

/-- **A view that every step changes by itself**, whatever else is in the state, is changed so by a
run. -/
theorem view_runSteps {view : σ → γ} {change : γ → α → γ}
    (hstep : ∀ s a, view (step s a).1 = change (view s) a) (s : σ) (as : List α) :
    view (runSteps step s as).1 = as.foldl change (view s) := by
  induction as generalizing s with
  | nil => rfl
  | cons a as ih =>
    calc view (runSteps step s (a :: as)).1
      _ = as.foldl change (view (step s a).1) := ih (step s a).1
      _ = as.foldl change (change (view s) a) := by rw [hstep]

/-- **Two runs side by side** stay related if every step keeps them so, and what the one gives back
can be told from what the other gives back. -/
theorem runSteps_simulation {step' : τ → α → τ × γ} {R : σ → τ → Prop} {f : γ → β}
    (hstep : ∀ a s t, R s t → R (step s a).1 (step' t a).1 ∧ (step s a).2 = f (step' t a).2)
    {s : σ} {t : τ} (h : R s t) (as : List α) :
    R (runSteps step s as).1 (runSteps step' t as).1 ∧
      (runSteps step s as).2 = (runSteps step' t as).2.map f := by
  induction as generalizing s t with
  | nil => exact ⟨h, rfl⟩
  | cons a as ih =>
    obtain ⟨hrel, hgiven⟩ := hstep a s t h
    obtain ⟨hrun, hgivens⟩ := ih hrel
    refine ⟨hrun, ?_⟩
    rw [runSteps, runSteps, List.map_cons, ← hgiven, ← hgivens]

end SortedTable
