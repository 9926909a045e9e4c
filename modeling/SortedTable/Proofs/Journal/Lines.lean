import Mathlib.Logic.Function.Basic
import SortedTable.Journal

/-!
# Reading the journal

The records of a journal are lines of text, and what they tell is to be read off the text. The
first letter tells how serious a record is (`SortedTable.Event.severity_eq_of_line_eq`), so no
record of a refused cell can pass for the record that a layout was settled; and the latter tells
which layout it was (`SortedTable.Event.layout_eq_of_line_eq`). With these two facts the records of
a settled layout can be counted in the text that is shown.
-/

namespace SortedTable

/-- Layouts have different names. -/
theorem Layout.name_injective : Function.Injective Layout.name := by
  intro L L' h
  cases L <;> cases L' <;> first | rfl | exact absurd h (by decide)

/-- Of a result, only refusals are reported. -/
theorem severity_of_mem_report {α : Type} {action : CellAction} {result : Except Fault α}
    {e : Event} (he : e ∈ report action result) : e.severity = .debug := by
  cases result with
  | ok x => cases he
  | error fault =>
    obtain rfl := List.mem_singleton.mp he
    rfl

namespace Event

/-! ### What a record tells -/

/-- A record begins with its severity. -/
theorem head?_line (e : Event) : e.line.toList.head? = e.severity.name.toList.head? := by
  rw [line, String.toList_append, String.toList_append, String.toList_append, List.append_assoc,
    List.append_assoc, List.head?_append]
  cases e.severity <;> rfl

/-- **A record tells how serious it is.** -/
theorem severity_eq_of_line_eq {e e' : Event} (h : e.line = e'.line) :
    e.severity = e'.severity := by
  have hhead := congrArg (fun text : String => text.toList.head?) h
  simp only [head?_line] at hhead
  revert hhead
  cases e.severity <;> cases e'.severity <;> decide

theorem line_layoutResolved (L : Layout) (source : String) :
    (layoutResolved L source).line = "INFO" ++ " " ++ journalName ++ " " ++
      ("event=codec_strategy_resolved strategy=" ++ L.name ++ " env=" ++ source) := rfl

/-- **The record of a settled layout tells which one it is.** -/
theorem layout_eq_of_line_eq {L L' : Layout} {source : String}
    (h : (layoutResolved L source).line = (layoutResolved L' source).line) : L = L' := by
  rw [line_layoutResolved, line_layoutResolved, String.append_right_inj, String.append_left_inj,
    String.append_left_inj, String.append_right_inj] at h
  exact Layout.name_injective h

end Event

namespace Verbosity

variable {V : Verbosity} {events : List Event} {L L' : Layout} {source : String}

/-! ### Counting the records of a settled layout -/

/-- What is of general interest is shown unless nothing is. -/
theorem shows_info_iff : V.shows .info = true ↔ V ≠ .off := by
  cases V <;> decide

theorem shows_debug_iff : V.shows .debug = true ↔ V = .debug := by
  cases V <;> decide

theorem lines_cons (V : Verbosity) (e : Event) (events : List Event) :
    V.lines (e :: events) = V.lines [e] ++ V.lines events := by
  rw [lines, lines, lines, ← List.map_append, ← List.filter_append, List.singleton_append]

theorem lines_singleton (V : Verbosity) (e : Event) :
    V.lines [e] = if V.shows e.severity = true then [e.line] else [] := by
  cases h : V.shows e.severity <;> simp [lines, h]

/-- Among records of refused cells there is none of a settled layout. -/
theorem count_lines_eq_zero (h : ∀ e ∈ events, e.severity = .debug) :
    (V.lines events).count (Event.layoutResolved L source).line = 0 := by
  refine List.count_eq_zero.mpr fun hmem => ?_
  obtain ⟨e, he, hline⟩ := List.mem_map.mp hmem
  have hdebug := h e (List.mem_filter.mp he).1
  rw [Event.severity_eq_of_line_eq hline] at hdebug
  cases hdebug

/-- **Where one layout is settled and otherwise cells are refused**, one record is of a settled
layout, if anything is shown, and it is of that one. -/
theorem count_lines_layoutResolved (h : ∀ e ∈ events, e.severity = .debug) :
    (V.lines (.layoutResolved L source :: events)).count (Event.layoutResolved L' source).line =
      if V ≠ .off ∧ L' = L then 1 else 0 := by
  rw [lines_cons, List.count_append, count_lines_eq_zero h, Nat.add_zero]
  rw [lines_singleton, Event.severity]
  by_cases hV : V ≠ .off
  · rw [if_pos (shows_info_iff.mpr hV)]
    by_cases hL : L' = L
    · rw [if_pos ⟨hV, hL⟩, hL, List.count_singleton_self]
    · rw [if_neg fun h => hL h.2]
      refine List.count_eq_zero.mpr fun hmem => hL ?_
      exact Event.layout_eq_of_line_eq (List.mem_singleton.mp hmem)
  · rw [if_neg (mt shows_info_iff.mp hV), if_neg fun h => hV h.1]
    rfl

end Verbosity

end SortedTable
