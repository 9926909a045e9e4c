import Mathlib.Data.Set.Basic
import SortedTable.Proofs.Selection.Clip
import SortedTable.Selection.Workspace

/-!
# What a run of commands selects

Of a workspace only this is of interest here: which keys each of its names selects,
`SortedTable.Workspace.meaning`. Every command has a meaning of its own on such families of sets,
`SortedTable.Command.denote`, in which an append is a union, a clip is an intersection and a copy is
the set itself. The two agree for one command
(`SortedTable.Workspace.meaning_step`), and so for any number of them
(`SortedTable.Workspace.meaning_run`).

The sets under the names are independent of each other. A command writes under one name at most,
`SortedTable.Command.target?`, and a run leaves every selection as it was whose name none of its
commands writes (`SortedTable.Workspace.selection_run_of_target_ne`), so a copy or a clipped
selection does not follow its source, nor the source follow them.
-/

namespace SortedTable

/-! ### Commands on sets of keys -/

namespace Command

/-- **What a command does to the sets of keys under the names.** -/
def denote (M : String → Set Key) : Command → String → Set Key
  | .reset slot => Function.update M slot ∅
  | .collect slot keys => Function.update M slot {k | k ∈ keys}
  | .appendKey slot k => Function.update M slot (M slot ∪ {k})
  | .appendInterval slot I => Function.update M slot (M slot ∪ {k | k ∈ I})
  | .extend slot Is => Function.update M slot (M slot ∪ {k | ∃ I ∈ Is, k ∈ I})
  | .copy slot into => Function.update M into (M slot)
  | .clip slot into I => Function.update M into (M slot ∩ {k | k ∈ I})
  | .share .. => M
  | .forget .. => M

/-- The name under which a command writes a selection, if it writes one. -/
def target? : Command → Option String
  | .reset slot => some slot
  | .collect slot _ => some slot
  | .appendKey slot _ => some slot
  | .appendInterval slot _ => some slot
  | .extend slot _ => some slot
  | .copy _ into => some into
  | .clip _ into _ => some into
  | .share .. => none
  | .forget .. => none

end Command

namespace Workspace

variable {W : Workspace} {slot : String}

/-- The set of the keys that each name selects. -/
def meaning (W : Workspace) (slot : String) : Set Key := {k | k ∈ W.selection slot}

theorem meaning_empty : empty.meaning = fun _ => ∅ :=
  funext fun _ => Set.eq_empty_of_forall_notMem fun k => Selection.not_mem_empty k

/-- Writing a selection replaces the set under its name, and no other. -/
theorem meaning_write {S : Selection} {s : Set Key} (h : ∀ k, k ∈ S ↔ k ∈ s) :
    (W.write slot S).1.meaning = Function.update W.meaning slot s := by
  funext other
  rw [meaning, selection_write, Function.update_apply]
  by_cases hother : other = slot
  · rw [if_pos hother, if_pos hother]
    exact Set.ext h
  · rw [if_neg hother, if_neg hother]
    rfl

/-! ### One command -/

/-- **A command does to the selections what it does to the sets.** -/
theorem meaning_step (W : Workspace) (c : Command) : (W.step c).1.meaning = c.denote W.meaning := by
  cases c with
  | reset slot => exact meaning_write fun k => iff_of_false (Selection.not_mem_empty k) id
  | collect slot keys => exact meaning_write fun k => Selection.mem_ofKeys
  | appendKey slot j => exact meaning_write fun k => Selection.mem_appendKey
  | appendInterval slot I => exact meaning_write fun k => Selection.mem_appendInterval
  | extend slot Is => exact meaning_write fun k => Selection.mem_extend
  | copy slot into => exact meaning_write fun k => Iff.rfl
  | clip slot into I => exact meaning_write fun k => Selection.mem_clip
  | share slot name I => rfl
  | forget name => rfl

/-- A command leaves every name alone that it does not write. -/
theorem selection_step_of_target_ne {c : Command} (h : c.target? ≠ some slot) :
    (W.step c).1.selection slot = W.selection slot := by
  have hwrite : ∀ {other : String} {S : Selection}, some other ≠ some slot →
      (W.write other S).1.selection slot = W.selection slot := by
    intro other S hne
    rw [selection_write, if_neg fun heq => hne (congrArg some heq.symm)]
  cases c with
  | share slot name I => rfl
  | forget name => rfl
  | _ => exact hwrite h

/-! ### A run -/

/-- **A run of commands selects what the sets say.** -/
theorem meaning_run (W : Workspace) (cs : List Command) :
    (W.run cs).1.meaning = cs.foldl Command.denote W.meaning :=
  view_runSteps meaning_step W cs

/-- **A run leaves every name alone that none of its commands writes.** -/
theorem selection_run_of_target_ne {cs : List Command} (h : ∀ c ∈ cs, c.target? ≠ some slot) :
    (W.run cs).1.selection slot = W.selection slot := by
  have hstep : ∀ c ∈ cs, ∀ V : Workspace, V.selection slot = W.selection slot →
      (V.step c).1.selection slot = W.selection slot :=
    fun c hc V hV => (selection_step_of_target_ne (h c hc)).trans hV
  exact runSteps_invariant hstep rfl

/-- **Selections are sets of keys.** Whatever commands are run from the empty workspace, a name
selects a key exactly when the key is in the set that the commands, read as operations on sets,
leave under that name; and so from any other workspace. A clipped selection holds the keys that the
selection and the interval share. What is written under other names, before or after, in the source
of a copy or in the copy, changes nothing in a selection. -/
theorem run_denotes_sets :
    (∀ (cs : List Command) (slot : String) (k : Key),
        ((empty.run cs).1.selection slot).contains k = true ↔
          k ∈ cs.foldl Command.denote (fun _ => ∅) slot) ∧
      (∀ (W : Workspace) (cs : List Command) (slot : String) (k : Key),
        ((W.run cs).1.selection slot).contains k = true ↔
          k ∈ cs.foldl Command.denote (fun other => {j | (W.selection other).contains j = true})
            slot) ∧
      (∀ (S : Selection) (I : Interval) (k : Key),
        (S.clip I).contains k = true ↔ S.contains k = true ∧ I.contains k = true) ∧
      ∀ (W : Workspace) (cs : List Command) (slot : String),
        (∀ c ∈ cs, c.target? ≠ some slot) →
          (W.run cs).1.selection slot = W.selection slot := by
  have hrun : ∀ (W : Workspace) (cs : List Command) (slot : String) (k : Key),
      ((W.run cs).1.selection slot).contains k = true ↔
        k ∈ cs.foldl Command.denote W.meaning slot := by
    intro W cs slot k
    rw [← meaning_run]
    rfl
  refine ⟨fun cs slot k => ?_, hrun, fun _ _ _ => Selection.mem_clip,
    fun _ _ _ h => selection_run_of_target_ne h⟩
  rw [hrun, meaning_empty]

/-- A selection is clipped into another name, and its source is appended to and then cut down to
nothing in place. The clipped selection stays what it was. -/
theorem run_denotes_sets_clip :
    let a : Key := ⟨[0x61]⟩
    let within : Interval := .ioo a ⟨[0x63]⟩
    let W : Workspace :=
      (empty.run [.appendInterval "all" (.icc a ⟨[0x7A]⟩), .clip "all" "some" within]).1
    let later : List Command := [.appendKey "all" ⟨[0x62]⟩, .clip "all" "all" .empty]
    (∀ c ∈ later, c.target? ≠ some "some") ∧
      (W.run later).1.selection "some" = W.selection "some" ∧
      W.selection "some" = ⟨[.interval within]⟩ := by
  intro a within W later
  have htarget : ∀ c ∈ later, c.target? ≠ some "some" := by
    simp [later, Command.target?]
  exact ⟨htarget, run_denotes_sets.2.2.2 W later "some" htarget, by decide⟩

end Workspace

end SortedTable
