import Mathlib.Data.List.TakeWhile

/-!
# Self-delimiting texts

Things that are written one behind the other, without lengths and without a mark that could not
occur in them, can be told apart only if each of them shows by itself where it ends. That is
`SortedTable.SelfDelimiting`: whatever follows, there is one way to split a text into a thing that
was written and what comes behind it.

The property is passed on from the parts of a text to the whole by cancelling one part after the
other, so it asks for no reader. Where there is one, it comes from the reader
(`SortedTable.SelfDelimiting.of_read`), and where there is a mark after all, from the mark
(`SortedTable.SelfDelimiting.of_notMem`). What it is good for are lists: a list of things written
end to end can be told from any other (`SortedTable.SelfDelimiting.flatMap_injective`).
-/

universe u v

namespace SortedTable

variable {α : Type u} {β : Type v} {write : α → List Char} {write' : β → List Char}

/-- **A self-delimiting way of writing**: what was written and what follows it can be told from the
two put together. -/
def SelfDelimiting (write : α → List Char) : Prop :=
  ∀ ⦃a b : α⦄ ⦃rest rest' : List Char⦄,
    write a ++ rest = write b ++ rest' → a = b ∧ rest = rest'

namespace SelfDelimiting

theorem of_read {read? : List Char → Option (α × List Char)}
    (hread : ∀ a rest, read? (write a ++ rest) = some (a, rest)) : SelfDelimiting write := by
  intro a b rest rest' h
  have hpair : some (a, rest) = some (b, rest') := by rw [← hread, ← hread, h]
  exact Prod.mk.inj (Option.some.inj hpair)

/-- **A mark behind**: what never has the mark in it ends where the mark is. -/
theorem of_notMem (hinj : Function.Injective write) {mark : Char} (hmark : ∀ a, mark ∉ write a)
    (tail : List Char) : SelfDelimiting fun a => write a ++ mark :: tail := by
  have hfront : ∀ a rest, (write a ++ mark :: tail ++ rest).takeWhile (· != mark) = write a := by
    intro a rest
    have hplain : ∀ c ∈ write a, (c != mark) = true := by
      intro c hc
      rw [bne_iff_ne]
      rintro rfl
      exact hmark a hc
    rw [List.append_assoc, List.takeWhile_append_of_pos hplain, List.cons_append,
      List.takeWhile_cons_of_neg (by simp), List.append_nil]
  intro a b rest rest' h
  have hwrite : write a = write b := by rw [← hfront a rest, h, hfront]
  obtain rfl : a = b := hinj hwrite
  exact ⟨rfl, List.append_cancel_left h⟩

theorem injective (h : SelfDelimiting write) : Function.Injective write := by
  intro a b hab
  exact (h (congrArg (· ++ []) hab)).1

/-- What stands in front of everything does no harm. -/
theorem append_left (h : SelfDelimiting write) (front : List Char) :
    SelfDelimiting fun a => front ++ write a := by
  intro a b rest rest' hab
  rw [List.append_assoc, List.append_assoc] at hab
  exact h (List.append_cancel_left hab)

/-- One thing behind the other. -/
theorem append (h : SelfDelimiting write) (h' : SelfDelimiting write') :
    SelfDelimiting fun p : α × β => write p.1 ++ write' p.2 := by
  intro p q rest rest' hpq
  rw [List.append_assoc, List.append_assoc] at hpq
  obtain ⟨hfst, htail⟩ := h hpq
  obtain ⟨hsnd, hrest⟩ := h' htail
  exact ⟨Prod.ext hfst hsnd, hrest⟩

/-- **Unique decoding**: if nothing is written as the empty text, lists written end to end are
different texts. -/
theorem flatMap_injective (h : SelfDelimiting write) (hne : ∀ a, write a ≠ []) :
    Function.Injective (List.flatMap write) := by
  intro as
  induction as with
  | nil =>
    intro bs hbs
    cases bs with
    | nil => rfl
    | cons b bs =>
      rw [List.flatMap_nil, List.flatMap_cons] at hbs
      exact absurd (List.append_eq_nil_iff.mp hbs.symm).1 (hne b)
  | cons a as ih =>
    intro bs hbs
    cases bs with
    | nil =>
      rw [List.flatMap_nil, List.flatMap_cons] at hbs
      exact absurd (List.append_eq_nil_iff.mp hbs).1 (hne a)
    | cons b bs =>
      rw [List.flatMap_cons, List.flatMap_cons] at hbs
      obtain ⟨rfl, hrest⟩ := h hbs
      rw [ih hrest]

end SelfDelimiting

end SortedTable
