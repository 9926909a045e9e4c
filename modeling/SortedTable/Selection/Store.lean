/-!
# Values stored under names

`SortedTable.Store` keeps at most one value per name: putting one under a name replaces what was
there, dropping a name leaves the others alone. These two facts, `SortedTable.Store.get?_put` and
`SortedTable.Store.get?_drop`, are all that is ever used of it.

`SortedTable.Shared` is a store for values that several callers ask for under one name and only the
first of them builds. Whoever asks later gets the stored value, whatever they would have built,
until the name is forgotten. It counts what it has built.
-/

universe u

namespace SortedTable

/-- At most one value under each name. -/
structure Store (α : Type u) where
  /-- The names with their values, the latest first. -/
  entries : List (String × α)

namespace Store

variable {α : Type u}

/-- Nothing is stored. -/
def empty : Store α := ⟨[]⟩

/-- The value under a name, if there is one. -/
def get? (s : Store α) (name : String) : Option α := s.entries.lookup name

/-- Takes the value under a name away. -/
def drop (s : Store α) (name : String) : Store α := ⟨s.entries.filter fun entry => entry.1 != name⟩

/-- Puts a value under a name, in place of what was there. -/
def put (s : Store α) (name : String) (value : α) : Store α :=
  ⟨(name, value) :: (s.drop name).entries⟩

theorem get?_empty (name : String) : (empty : Store α).get? name = none := rfl

/-- Dropping a name empties that name and no other. -/
theorem get?_drop (s : Store α) (name other : String) :
    (s.drop name).get? other = if other = name then none else s.get? other := by
  obtain ⟨entries⟩ := s
  simp only [drop, get?]
  induction entries with
  | nil => simp
  | cons entry rest ih =>
    obtain ⟨key, value⟩ := entry
    by_cases hkey : key = name
    · rw [List.filter_cons_of_neg (by simp [hkey]), ih, List.lookup_cons]
      by_cases hother : other = name
      · simp [hother]
      · rw [beq_eq_false_iff_ne.mpr fun h => hother (h.trans hkey)]
    · rw [List.filter_cons_of_pos (by simp [hkey]), List.lookup_cons, List.lookup_cons, ih]
      by_cases hother : other = name
      · rw [beq_eq_false_iff_ne.mpr fun h => hkey (h.symm.trans hother), if_pos hother]
      · simp only [if_neg hother]

/-- Putting a value under a name changes that name and no other. -/
theorem get?_put (s : Store α) (name other : String) (value : α) :
    (s.put name value).get? other = if other = name then some value else s.get? other := by
  by_cases hother : other = name
  · rw [put, get?, List.lookup_cons, beq_iff_eq.mpr hother, if_pos hother]
  · have h := get?_drop s name other
    rw [if_neg hother, get?] at h
    rw [put, get?, List.lookup_cons, beq_eq_false_iff_ne.mpr hother, if_neg hother]
    exact h

end Store

/-- Values that are built once per name and then shared. -/
structure Shared (α : Type u) where
  /-- What is stored now. -/
  stored : Store α
  /-- How many values have been built so far. -/
  builds : Nat

namespace Shared

variable {α : Type u}

/-- Nothing is stored and nothing was ever built. -/
def empty : Shared α := ⟨.empty, 0⟩

/-- **The value under a name, built if the name is absent**, and whether it had to be. -/
def findOrBuild (s : Shared α) (name : String) (build : Unit → α) : Shared α × α × Bool :=
  match s.stored.get? name with
  | some value => (s, value, false)
  | none =>
    let value := build ()
    (⟨s.stored.put name value, s.builds + 1⟩, value, true)

/-- Forgets a name, and says whether there was a value under it. -/
def forget (s : Shared α) (name : String) : Shared α × Bool :=
  (⟨s.stored.drop name, s.builds⟩, (s.stored.get? name).isSome)

end Shared

end SortedTable
