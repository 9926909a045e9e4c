import SortedTable.Run
import SortedTable.Selection.Basic
import SortedTable.Selection.Store

/-!
# Work on named selections

A `SortedTable.Workspace` holds any number of selections under names, and beside them the shared
store of clipped selections that callers ask for by name. A name that was never used stands for
the empty selection.

`SortedTable.Command` lists all that can be done to a workspace, `SortedTable.Workspace.step` does
it, and `SortedTable.Workspace.run` does one command after another. Every command writes under one
name at most, so what it does to that name is all it does.
-/

namespace SortedTable

/-- One thing to do with the selections of a workspace. -/
inductive Command
  /-- Start over with the empty selection. -/
  | reset (slot : String)
  /-- Start over with the selection of some keys. -/
  | collect (slot : String) (keys : List Key)
  /-- Append one key. -/
  | appendKey (slot : String) (k : Key)
  /-- Append one interval. -/
  | appendInterval (slot : String) (I : Interval)
  /-- Append several intervals. -/
  | extend (slot : String) (Is : List Interval)
  /-- Store a copy under another name. -/
  | copy (slot into : String)
  /-- Store the part inside an interval, under the same name or another. -/
  | clip (slot into : String) (I : Interval)
  /-- Ask the shared store for the part inside an interval, by name. -/
  | share (slot name : String) (I : Interval)
  /-- Take a name out of the shared store. -/
  | forget (name : String)

/-- What a command gives back. -/
inductive Outcome
  /-- The selection that was written. -/
  | written (S : Selection)
  /-- The selection the shared store holds under the name, whether it was built by this command, and
  how many the store has built by now. -/
  | shared (S : Selection) (isNew : Bool) (builds : Nat)
  /-- Whether there was something to forget. -/
  | forgotten (wasThere : Bool)
  deriving DecidableEq, Repr

/-- Named selections and the shared store. -/
structure Workspace where
  /-- The selections that have been written. -/
  selections : Store Selection
  /-- The selections built once per name. -/
  shared : Shared Selection

namespace Workspace

/-- No selection was written and nothing is shared. -/
def empty : Workspace := ⟨.empty, .empty⟩

/-- The selection under a name; the empty one if the name was never used. -/
def selection (W : Workspace) (slot : String) : Selection := (W.selections.get? slot).getD .empty

/-- Writes a selection under a name and gives it back. -/
def write (W : Workspace) (slot : String) (S : Selection) : Workspace × Outcome :=
  (⟨W.selections.put slot S, W.shared⟩, .written S)

/-- **Does one command.** -/
def step (W : Workspace) : Command → Workspace × Outcome
  | .reset slot => W.write slot .empty
  | .collect slot keys => W.write slot (.ofKeys keys)
  | .appendKey slot k => W.write slot ((W.selection slot).appendKey k)
  | .appendInterval slot I => W.write slot ((W.selection slot).appendInterval I)
  | .extend slot Is => W.write slot ((W.selection slot).extend Is)
  | .copy slot into => W.write into (W.selection slot)
  | .clip slot into I => W.write into ((W.selection slot).clip I)
  | .share slot name I =>
    let (shared, S, isNew) := W.shared.findOrBuild name fun _ => (W.selection slot).clip I
    (⟨W.selections, shared⟩, .shared S isNew shared.builds)
  | .forget name =>
    let (shared, wasThere) := W.shared.forget name
    (⟨W.selections, shared⟩, .forgotten wasThere)

/-- **Does the commands in order**, and collects what they give back. -/
def run (W : Workspace) (cs : List Command) : Workspace × List Outcome := runSteps step W cs

/-- Writing changes the selection under its own name and no other. -/
theorem selection_write (W : Workspace) (slot other : String) (S : Selection) :
    (W.write slot S).1.selection other = if other = slot then S else W.selection other := by
  rw [write, selection, selection, Store.get?_put]
  by_cases h : other = slot <;> simp [h]

end Workspace

end SortedTable
