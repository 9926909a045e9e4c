import Mathlib.Data.Option.Basic
import SortedTable.Selection.Workspace

/-!
# The history of a name

Several callers ask for a shared selection under one name, and others take the name out. Which of
them came first can be told from the list of commands alone, without running any of them, and this
is done here.

A name is absent at a place, `SortedTable.Command.AbsentAt`, if every command before it that asks
for the name is followed by one that takes it out, still before the place. A command that asks while
the name is absent builds, `SortedTable.Command.BuildsAt`. What is held at a later place was built
by such a command, provided that the name was not taken out since, `SortedTable.Command.BuiltAt`.

A name that is not absent was built at some earlier place
(`SortedTable.Command.absentAt_or_exists_builtAt`), and at one only
(`SortedTable.Command.BuiltAt.unique`): of two places that build, the later one finds the name
absent, so it was taken out in between.
-/

namespace SortedTable

namespace Command

/-- The name under which a command asks for a shared selection, if it asks for one. -/
def asked? : Command → Option String
  | .share _ name _ => some name
  | _ => none

/-- The name that a command takes out, if it takes one out. -/
def forgotten? : Command → Option String
  | .forget name => some name
  | _ => none

variable {cs : List Command} {name : String} {i j k : Nat}

/-- The command at a place asks for a name. -/
def AsksAt (cs : List Command) (name : String) (i : Nat) : Prop :=
  cs[i]?.bind asked? = some name

/-- The command at a place takes a name out. -/
def ForgetsAt (cs : List Command) (name : String) (i : Nat) : Prop :=
  cs[i]?.bind forgotten? = some name

/-- **A name is absent at a place**: whatever was built under it before has been taken out. -/
def AbsentAt (cs : List Command) (name : String) (i : Nat) : Prop :=
  ∀ k < i, AsksAt cs name k → ∃ m < i, k < m ∧ ForgetsAt cs name m

/-- **The command at a place builds**: it asks for a name that is absent. -/
def BuildsAt (cs : List Command) (name : String) (i : Nat) : Prop :=
  AsksAt cs name i ∧ AbsentAt cs name i

instance : Decidable (AsksAt cs name i) :=
  inferInstanceAs (Decidable (cs[i]?.bind asked? = some name))

instance : Decidable (ForgetsAt cs name i) :=
  inferInstanceAs (Decidable (cs[i]?.bind forgotten? = some name))

instance : Decidable (AbsentAt cs name i) :=
  inferInstanceAs (Decidable (∀ k < i, AsksAt cs name k → ∃ m < i, k < m ∧ ForgetsAt cs name m))

instance : Decidable (BuildsAt cs name i) :=
  inferInstanceAs (Decidable (AsksAt cs name i ∧ AbsentAt cs name i))

instance : DecidablePred fun i => ∃ name, BuildsAt cs name i := fun i =>
  decidable_of_iff (∃ name ∈ cs[i]?.bind asked?, BuildsAt cs name i) (by
    constructor
    · rintro ⟨name, -, h⟩
      exact ⟨name, h⟩
    · rintro ⟨name, h⟩
      exact ⟨name, h.1, h⟩)

/-- **What a name stands for at the place `i` was built at the place `j`**, and was not taken out
since. -/
structure BuiltAt (cs : List Command) (name : String) (j i : Nat) : Prop where
  lt : j < i
  builds : BuildsAt cs name j
  kept : ∀ m, j < m → m < i → ¬ForgetsAt cs name m

instance : Decidable (BuiltAt cs name j i) :=
  decidable_of_iff (j < i ∧ BuildsAt cs name j ∧ ∀ m < i, j < m → ¬ForgetsAt cs name m) (by
    constructor
    · rintro ⟨hlt, hbuilds, hkept⟩
      exact ⟨hlt, hbuilds, fun m hj hi => hkept m hi hj⟩
    · rintro ⟨hlt, hbuilds, hkept⟩
      exact ⟨hlt, hbuilds, fun m hi hj => hkept m hj hi⟩)

theorem AsksAt.exists_share (h : AsksAt cs name i) :
    ∃ slot I, cs[i]? = some (.share slot name I) := by
  obtain ⟨c, hc, hasked⟩ := Option.bind_eq_some_iff.mp h
  cases c <;> cases hasked
  exact ⟨_, _, hc⟩

theorem AsksAt.not_forgetsAt (h : AsksAt cs name i) : ¬ForgetsAt cs name i := by
  obtain ⟨slot, I, hshare⟩ := h.exists_share
  intro hforgets
  rw [ForgetsAt, hshare] at hforgets
  cases hforgets

theorem exists_buildsAt_iff (h : AsksAt cs name i) :
    (∃ other, BuildsAt cs other i) ↔ AbsentAt cs name i := by
  constructor
  · rintro ⟨other, hother, habsent⟩
    obtain rfl : other = name := Option.some.inj (hother.symm.trans h)
    exact habsent
  · intro habsent
    exact ⟨name, h, habsent⟩

theorem AbsentAt.succ (h : AbsentAt cs name i) (hi : ¬AsksAt cs name i) :
    AbsentAt cs name (i + 1) := by
  intro k hk hasks
  have hne : k ≠ i := by
    rintro rfl
    exact hi hasks
  obtain ⟨m, hm, hkm, hforgets⟩ := h k (by omega) hasks
  exact ⟨m, by omega, hkm, hforgets⟩

theorem AbsentAt.of_succ (h : AbsentAt cs name (i + 1)) (hi : ¬ForgetsAt cs name i) :
    ¬AsksAt cs name i ∧ AbsentAt cs name i := by
  constructor
  · intro hasks
    obtain ⟨m, hm, him, -⟩ := h i (by omega) hasks
    omega
  · intro k hk hasks
    obtain ⟨m, hm, hkm, hforgets⟩ := h k (by omega) hasks
    have hne : m ≠ i := by
      rintro rfl
      exact hi hforgets
    exact ⟨m, by omega, hkm, hforgets⟩

theorem absentAt_succ_of_forgetsAt (h : ForgetsAt cs name i) : AbsentAt cs name (i + 1) := by
  intro k hk hasks
  have hne : k ≠ i := by
    rintro rfl
    exact hasks.not_forgetsAt h
  exact ⟨i, by omega, by omega, h⟩

namespace BuiltAt

theorem succ (h : BuiltAt cs name j i) (hi : ¬ForgetsAt cs name i) :
    BuiltAt cs name j (i + 1) where
  lt := Nat.lt_succ_of_lt h.lt
  builds := h.builds
  kept m hjm hmi := by
    rcases Nat.lt_succ_iff_lt_or_eq.mp hmi with hlt | rfl
    · exact h.kept m hjm hlt
    · exact hi

theorem of_builds (h : BuildsAt cs name i) : BuiltAt cs name i (i + 1) where
  lt := Nat.lt_succ_self i
  builds := h
  kept m him hmi := by omega

theorem eq_or_pred (h : BuiltAt cs name j (i + 1)) : j = i ∨ BuiltAt cs name j i := by
  rcases Nat.lt_succ_iff_lt_or_eq.mp h.lt with hlt | heq
  · exact Or.inr ⟨hlt, h.builds, fun m hjm hmi => h.kept m hjm (by omega)⟩
  · exact Or.inl heq

/-- **The place a name is held from is the only one.** -/
theorem unique (h : BuiltAt cs name j i) (h' : BuiltAt cs name k i) : j = k := by
  have hle : ∀ {a b : Nat}, BuiltAt cs name a i → BuiltAt cs name b i → b ≤ a := by
    intro a b ha hb
    by_contra hab
    obtain ⟨m, hmb, ham, hforgets⟩ := hb.builds.2 a (by omega) ha.builds.1
    exact ha.kept m ham (Nat.lt_trans hmb hb.lt) hforgets
  exact Nat.le_antisymm (hle h' h) (hle h h')

end BuiltAt

/-- **At every place a name is absent or held**, and then it was built at an earlier place. -/
theorem absentAt_or_exists_builtAt (cs : List Command) (name : String) (i : Nat) :
    AbsentAt cs name i ∨ ∃ j, BuiltAt cs name j i := by
  induction i with
  | zero => exact Or.inl fun k hk => absurd hk (Nat.not_lt_zero k)
  | succ i ih =>
    by_cases hforgets : ForgetsAt cs name i
    · exact Or.inl (absentAt_succ_of_forgetsAt hforgets)
    · rcases ih with habsent | ⟨j, hbuilt⟩
      · by_cases hasks : AsksAt cs name i
        · exact Or.inr ⟨i, .of_builds ⟨hasks, habsent⟩⟩
        · exact Or.inl (habsent.succ hasks)
      · exact Or.inr ⟨j, hbuilt.succ hforgets⟩

theorem exists_builtAt_succ (h : AsksAt cs name i) : ∃ j, BuiltAt cs name j (i + 1) := by
  rcases absentAt_or_exists_builtAt cs name i with habsent | ⟨j, hbuilt⟩
  · exact ⟨i, .of_builds ⟨h, habsent⟩⟩
  · exact ⟨j, hbuilt.succ h.not_forgetsAt⟩

/-- A name that is never taken out is built at one place at most, and at one if it is asked for. -/
theorem existsUnique_buildsAt (hkept : ∀ m, ¬ForgetsAt cs name m) (hasks : AsksAt cs name i) :
    ∃! j, BuildsAt cs name j := by
  obtain ⟨j, hbuilt⟩ := exists_builtAt_succ hasks
  have hlater : ∀ {k n : Nat}, k < n → BuildsAt cs name k → BuiltAt cs name k n :=
    fun hlt hbuilds => ⟨hlt, hbuilds, fun m _ _ => hkept m⟩
  refine ⟨j, hbuilt.builds, fun k hk => ?_⟩
  have hj : j < max j k + 1 := by omega
  have hk' : k < max j k + 1 := by omega
  exact (hlater hk' hk).unique (hlater hj hbuilt.builds)

end Command

end SortedTable
