import Mathlib.Data.List.Basic
import Mathlib.Data.Nat.Count
import Mathlib.Tactic.IntervalCases
import SortedTable.Proofs.Selection.History
import SortedTable.Selection.Registry

/-!
# The first build under a name

What a caller gets who asks for a shared selection is settled by who came first. The caller that
finds the name absent has its selection clipped to its interval, and whoever asks from then on gets
what was clipped there, no matter what they ask for themselves and how the selection has grown
since, until the name is taken out (`SortedTable.Hosted.shared_selection_is_first_build`).

A run of a workspace is followed by the state before each place, `SortedTable.stateBefore`. By
induction on the place, the store holds nothing under a name that is absent there, and otherwise
what was clipped at the place the name is held from (`SortedTable.Workspace.held_before`); and it
has built as often as there were places that build (`SortedTable.Workspace.builds_before`).

Nothing of this depends on how the store is made. A registry that keeps the contract goes along with
the store, command by command (`SortedTable.Hosted.Mirrors.step`), so its callers cannot tell the
one from the other, and what is true of the store is true of the registry.
-/

universe u v

namespace SortedTable

open Command

/-! ### What a registry hands out -/

namespace Registry.KeepsFirst

variable {ρ : Type u} {ε : Type v} {R : Registry ρ ε Selection}
  {held : ρ → String → Option Selection}

theorem share_snd (hR : R.KeepsFirst held) (s : ρ) (name : String) (S : Selection) (I : Interval) :
    (R.share s name S I).2 = (.ok ((held s name).getD (S.clip I)), (held s name).isNone) := by
  cases h : held s name with
  | none => exact hR.findOrBuild_of_none s name (fun _ => .ok (S.clip I)) h
  | some v => exact hR.findOrBuild_of_some s name (fun _ => .ok (S.clip I)) v h

theorem held_share (hR : R.KeepsFirst held) (s : ρ) (name : String) (S : Selection) (I : Interval)
    (other : String) : held (R.share s name S I).1 other =
      if other = name then some ((held s name).getD (S.clip I)) else held s other := by
  have hvalue : (R.share s name S I).2.1.toOption = some ((held s name).getD (S.clip I)) := by
    rw [hR.share_snd]
    rfl
  rw [← hvalue]
  exact hR.held_findOrBuild s name (fun _ => .ok (S.clip I)) other

end Registry.KeepsFirst

/-! ### A workspace, command by command -/

namespace Workspace

variable {selections : Store Selection} {W : Workspace} {c : Command} {cs : List Command}
  {slot name : String} {I : Interval} {i j : Nat}

/-- The value that is shared under a name. -/
def held (W : Workspace) (name : String) : Option Selection := W.shared.stored.get? name

theorem step_share_of_some {S : Selection} (h : W.held name = some S) :
    W.step (.share slot name I) = (W, .shared S false W.shared.builds) := by
  rw [step, Shared.findOrBuild_of_some h]

theorem step_share_of_none (h : W.held name = none) :
    W.step (.share slot name I) =
      (⟨W.selections, ⟨W.shared.stored.put name ((W.selection slot).clip I), W.shared.builds + 1⟩⟩,
        .shared ((W.selection slot).clip I) true (W.shared.builds + 1)) := by
  rw [step, Shared.findOrBuild_of_none h]

theorem held_step_share (W : Workspace) (slot name : String) (I : Interval) (other : String) :
    (W.step (.share slot name I)).1.held other =
      if other = name then some ((W.held name).getD ((W.selection slot).clip I))
      else W.held other := by
  cases h : W.held name with
  | none =>
    rw [step_share_of_none h]
    exact Store.get?_put W.shared.stored name other ((W.selection slot).clip I)
  | some S =>
    rw [step_share_of_some h]
    by_cases hother : other = name
    · rw [if_pos hother, hother, h, Option.getD_some]
    · rw [if_neg hother]

theorem held_step_forget (W : Workspace) (name other : String) :
    (W.step (.forget name)).1.held other = if other = name then none else W.held other :=
  Store.get?_drop W.shared.stored name other

theorem held_step_of_ne (hasked : c.asked? ≠ some name) (hforgotten : c.forgotten? ≠ some name) :
    (W.step c).1.held name = W.held name := by
  cases c with
  | share slot other I =>
    rw [held_step_share, if_neg fun h => hasked (congrArg some h.symm)]
  | forget other =>
    rw [held_step_forget, if_neg fun h => hforgotten (congrArg some h.symm)]
  | _ => rfl

theorem held_step_of_forgotten (h : c.forgotten? = some name) :
    (W.step c).1.held name = none := by
  cases c <;> cases h
  rw [held_step_forget, if_pos rfl]

theorem step_share_snd (W : Workspace) (slot name : String) (I : Interval) :
    (W.step (.share slot name I)).2 =
      .shared ((W.held name).getD ((W.selection slot).clip I)) (W.held name).isNone
        (W.step (.share slot name I)).1.shared.builds := by
  cases h : W.held name with
  | none => rw [step_share_of_none h]; rfl
  | some S => rw [step_share_of_some h]; rfl

theorem builds_step_share (W : Workspace) (slot name : String) (I : Interval) :
    (W.step (.share slot name I)).1.shared.builds =
      W.shared.builds + if W.held name = none then 1 else 0 := by
  cases h : W.held name with
  | none => rw [step_share_of_none h]; rfl
  | some S => rw [step_share_of_some h]; rfl

theorem builds_step_of_asked_none (h : c.asked? = none) :
    (W.step c).1.shared.builds = W.shared.builds := by
  cases c with
  | share slot name I => cases h
  | _ => rfl

/-! ### The state before a place -/

theorem held_before_succ_of_forgetsAt (h : ForgetsAt cs name i) :
    (stateBefore step W cs (i + 1)).held name = none := by
  obtain ⟨c, hc, hforgotten⟩ := Option.bind_eq_some_iff.mp h
  rw [stateBefore_succ hc, held_step_of_forgotten hforgotten]

theorem held_before_succ_of_share (h : cs[i]? = some (.share slot name I)) :
    (stateBefore step W cs (i + 1)).held name =
      some (((stateBefore step W cs i).held name).getD
        (((stateBefore step W cs i).selection slot).clip I)) := by
  rw [stateBefore_succ h, held_step_share, if_pos rfl]

theorem held_before_succ_of_ne (hasks : ¬AsksAt cs name i) (hforgets : ¬ForgetsAt cs name i) :
    (stateBefore step W cs (i + 1)).held name = (stateBefore step W cs i).held name := by
  cases hc : cs[i]? with
  | none => rw [stateBefore_succ_of_none hc]
  | some c =>
    rw [AsksAt, hc] at hasks
    rw [ForgetsAt, hc] at hforgets
    rw [stateBefore_succ hc, held_step_of_ne hasks hforgets]

/-! ### A run in which nothing was shared before -/

/-- A workspace in which nothing is shared yet. -/
def start (selections : Store Selection) : Workspace := ⟨selections, .empty⟩

/-- **What the store holds at a place**, by the history of the name. -/
theorem held_before (selections : Store Selection) (cs : List Command) (name : String) (i : Nat) :
    (AbsentAt cs name i → (stateBefore step (start selections) cs i).held name = none) ∧
      ∀ j slot I, BuiltAt cs name j i → cs[j]? = some (.share slot name I) →
        (stateBefore step (start selections) cs i).held name =
          some (((stateBefore step (start selections) cs j).selection slot).clip I) := by
  induction i with
  | zero => exact ⟨fun _ => rfl, fun j _ _ h => absurd h.lt (Nat.not_lt_zero j)⟩
  | succ i ih =>
    obtain ⟨ihabsent, ihbuilt⟩ := ih
    constructor
    · intro habsent
      by_cases hforgets : ForgetsAt cs name i
      · exact held_before_succ_of_forgetsAt hforgets
      · obtain ⟨hasks, hbefore⟩ := habsent.of_succ hforgets
        rw [held_before_succ_of_ne hasks hforgets, ihabsent hbefore]
    · intro j slot I hbuilt hj
      -- Either the command just done has built, or what was held before it is held still: it may
      -- have been asked for once more, but it was not taken out.
      rcases hbuilt.eq_or_pred with rfl | hbefore
      · rw [held_before_succ_of_share hj, ihabsent hbuilt.builds.2]
        rfl
      · have hforgets : ¬ForgetsAt cs name i := hbuilt.kept i hbefore.lt (Nat.lt_succ_self i)
        by_cases hasks : AsksAt cs name i
        · obtain ⟨slot', I', hi⟩ := hasks.exists_share
          rw [held_before_succ_of_share hi, ihbuilt j slot I hbefore hj]
          rfl
        · rw [held_before_succ_of_ne hasks hforgets, ihbuilt j slot I hbefore hj]

theorem held_before_eq_none_iff :
    (stateBefore step (start selections) cs i).held name = none ↔ AbsentAt cs name i := by
  refine ⟨fun hnone => ?_, (held_before selections cs name i).1⟩
  rcases absentAt_or_exists_builtAt cs name i with habsent | ⟨j, hbuilt⟩
  · exact habsent
  · obtain ⟨slot, I, hj⟩ := hbuilt.builds.1.exists_share
    rw [(held_before selections cs name i).2 j slot I hbuilt hj] at hnone
    cases hnone

/-- **The store has built once for each place that builds.** -/
theorem builds_before (selections : Store Selection) (cs : List Command) (i : Nat) :
    (stateBefore step (start selections) cs i).shared.builds =
      Nat.count (fun k => ∃ name, BuildsAt cs name k) i := by
  induction i with
  | zero => rfl
  | succ i ih =>
    rw [Nat.count_succ, ← ih]
    by_cases hasks : ∃ name, AsksAt cs name i
    · obtain ⟨name, hname⟩ := hasks
      obtain ⟨slot, I, hi⟩ := hname.exists_share
      rw [stateBefore_succ hi, builds_step_share]
      simp only [exists_buildsAt_iff hname, held_before_eq_none_iff]
    · have hbuilds : ¬∃ name, BuildsAt cs name i := fun ⟨name, h⟩ => hasks ⟨name, h.1⟩
      rw [if_neg hbuilds]
      cases hc : cs[i]? with
      | none => rw [stateBefore_succ_of_none hc, Nat.add_zero]
      | some c =>
        have hasked : c.asked? = none := by
          rw [Option.eq_none_iff_forall_ne_some]
          intro name hname
          exact hasks ⟨name, by rw [AsksAt, hc]; exact hname⟩
        rw [stateBefore_succ hc, builds_step_of_asked_none hasked, Nat.add_zero]

theorem getElem?_run_of_builtAt {slot' : String} {I' : Interval}
    (hi : cs[i]? = some (.share slot' name I')) (hbuilt : BuiltAt cs name j (i + 1))
    (hj : cs[j]? = some (.share slot name I)) : ((start selections).run cs).2[i]? =
      some (.shared (((stateBefore step (start selections) cs j).selection slot).clip I)
        (decide (j = i)) (Nat.count (fun k => ∃ name, BuildsAt cs name k) (i + 1))) := by
  rw [run, getElem?_runSteps, hi, Option.map_some, step_share_snd, ← stateBefore_succ hi,
    builds_before]
  -- What is given back depends on what is held before the command, not after it.
  rcases hbuilt.eq_or_pred with rfl | hbefore
  · have hnone := (held_before selections cs name j).1 hbuilt.builds.2
    obtain ⟨rfl, rfl⟩ : slot' = slot ∧ I' = I := by
      rw [hi] at hj
      cases hj
      exact ⟨rfl, rfl⟩
    rw [hnone]
    simp
  · have hsome := (held_before selections cs name i).2 j slot I hbefore hj
    rw [hsome, decide_eq_false hbefore.lt.ne]
    rfl

end Workspace

/-! ### A registry beside the store -/

namespace Hosted

variable {ρ : Type u} {ε : Type v} {R : Registry ρ ε Selection}
  {held : ρ → String → Option Selection} {H : Hosted ρ} {W : Workspace}

/-- A workspace with a registry holds what a workspace with a store holds. -/
structure Mirrors (held : ρ → String → Option Selection) (H : Hosted ρ) (W : Workspace) :
    Prop where
  selections : H.selections = W.selections
  builds : H.builds = W.shared.builds
  held : ∀ name, held H.registry name = W.held name

theorem step_share (H : Hosted ρ) (slot : String) {s : ρ} {name : String} {I : Interval}
    {S : Selection} {isNew : Bool}
    (h : R.share H.registry name ((H.selections.get? slot).getD .empty) I = (s, .ok S, isNew)) :
    H.step R (.share slot name I) = (⟨H.selections, s, H.builds + isNew.toNat⟩,
      .ok (.shared S isNew (H.builds + isNew.toNat))) := by
  rw [step, h]
  rfl

/-- **One command keeps a registry in step with the store.** The registry refuses nothing, and gives
back what the store gives back. -/
theorem Mirrors.step (hR : R.KeepsFirst held) (h : Mirrors held H W) (c : Command) :
    Mirrors held (H.step R c).1 (W.step c).1 ∧ (H.step R c).2 = .ok (W.step c).2 := by
  obtain ⟨selections, registry, builds⟩ := H
  obtain ⟨rfl, rfl, hheld⟩ := h
  cases c with
  | share slot name I =>
    have hfound : R.share registry name (W.selection slot) I =
        ((R.share registry name (W.selection slot) I).1,
          .ok ((W.held name).getD ((W.selection slot).clip I)), (W.held name).isNone) :=
      Prod.ext rfl ((hR.share_snd registry name (W.selection slot) I).trans (by rw [hheld name]))
    have hshare := step_share ⟨W.selections, registry, W.shared.builds⟩ slot hfound
    have hbuilds : W.shared.builds + (W.held name).isNone.toNat =
        (W.step (.share slot name I)).1.shared.builds := by
      rw [Workspace.builds_step_share]
      cases W.held name <;> rfl
    rw [hshare, hbuilds]
    refine ⟨⟨rfl, rfl, fun other => ?_⟩,
      congrArg Except.ok (Workspace.step_share_snd W slot name I).symm⟩
    rw [Workspace.held_step_share, ← hheld name, ← hheld other]
    exact hR.held_share registry name (W.selection slot) I other
  | forget name =>
    refine ⟨⟨rfl, rfl, fun other => ?_⟩, ?_⟩
    · rw [Workspace.held_step_forget, ← hheld other]
      exact hR.held_forget registry name other
    · have hthere : (R.forget registry name).2 = (W.held name).isSome :=
        (hR.forget_snd registry name).trans (by rw [hheld])
      exact congrArg (fun b => Except.ok (Outcome.forgotten b)) hthere
  | _ => exact ⟨⟨rfl, rfl, hheld⟩, rfl⟩

/-- **A registry stays in step with the store over a whole run.** -/
theorem Mirrors.run (hR : R.KeepsFirst held) (h : Mirrors held H W) (cs : List Command) :
    Mirrors held (H.run R cs).1 (W.run cs).1 ∧ (H.run R cs).2 = (W.run cs).2.map .ok :=
  runSteps_simulation (fun c _ _ hmirrors => hmirrors.step hR c) h cs

/-! ### What callers get -/

open Workspace

/-- The selection under a name as a run finds it at a place. -/
def source (R : Registry ρ ε Selection) (H : Hosted ρ) (cs : List Command) (i : Nat)
    (slot : String) : Selection :=
  ((H.run R (cs.take i)).1.selections.get? slot).getD .empty

/-- All commands of a run that ask for a name find the same selection and pass the same interval. -/
def AllPass (R : Registry ρ ε Selection) (H : Hosted ρ) (cs : List Command) (name : String)
    (S : Selection) (I : Interval) : Prop :=
  ∀ i slot I', cs[i]? = some (.share slot name I') → H.source R cs i slot = S ∧ I' = I

variable {cs : List Command} {name : String} {i : Nat}

theorem source_eq (hR : R.KeepsFirst held) (h : Mirrors held H W) (cs : List Command) (i : Nat)
    (slot : String) :
    H.source R cs i slot = (stateBefore Workspace.step W cs i).selection slot := by
  have hselections := (h.run hR (cs.take i)).1.selections
  rw [source, hselections]
  rfl

theorem exists_builtAt_outcome (hR : R.KeepsFirst held)
    (h : Mirrors held H (start H.selections)) (hasks : AsksAt cs name i) :
    ∃ j slot I, cs[j]? = some (.share slot name I) ∧ BuiltAt cs name j (i + 1) ∧
      (H.run R cs).2[i]? = some (.ok (.shared ((H.source R cs j slot).clip I) (decide (j = i))
        (Nat.count (fun k => ∃ name, BuildsAt cs name k) (i + 1)))) := by
  obtain ⟨slot', I', hi⟩ := hasks.exists_share
  obtain ⟨j, hbuilt⟩ := exists_builtAt_succ hasks
  obtain ⟨slot, I, hj⟩ := hbuilt.builds.1.exists_share
  refine ⟨j, slot, I, hj, hbuilt, ?_⟩
  rw [(h.run hR cs).2, source_eq hR h, List.getElem?_map, getElem?_run_of_builtAt hi hbuilt hj]
  rfl

theorem step_share_frame (hR : R.KeepsFirst held) (H : Hosted ρ) (slot name : String)
    (I : Interval) : (H.step R (.share slot name I)).1.selections = H.selections ∧
      ∀ other ≠ name, held (H.step R (.share slot name I)).1.registry other =
        held H.registry other := by
  refine ⟨rfl, fun other hother => ?_⟩
  have hshare := hR.held_share H.registry name ((H.selections.get? slot).getD .empty) I other
  rw [if_neg hother] at hshare
  exact hshare

theorem step_forget_frame (hR : R.KeepsFirst held) (H : Hosted ρ) (name : String) :
    (H.step R (.forget name)).1.selections = H.selections ∧
      ∀ other ≠ name, held (H.step R (.forget name)).1.registry other =
        held H.registry other := by
  refine ⟨rfl, fun other hother => ?_⟩
  have hforget := hR.held_forget H.registry name other
  rw [if_neg hother] at hforget
  exact hforget

/-- **A shared selection is the one that was built first.** In every run that starts with nothing
shared, nobody who asks for a name is refused: they get the selection as it was clipped where the
name is held from, and are told whether that was just now. The registry builds as often as a name is
asked for in its absence. No command that asks or takes out writes a selection, or touches another
name. So if all that ask for a name pass the same, all get the same, and unless the name is taken
out it is built exactly once. -/
theorem shared_selection_is_first_build (hR : R.KeepsFirst held)
    (hheld : ∀ name, held H.registry name = none) (hbuilds : H.builds = 0) (cs : List Command) :
    (∀ i name, AsksAt cs name i →
      ∃ j slot I, cs[j]? = some (.share slot name I) ∧ BuiltAt cs name j (i + 1) ∧
        (H.run R cs).2[i]? = some (.ok (.shared ((H.source R cs j slot).clip I) (decide (j = i))
          (Nat.count (fun k => ∃ name, BuildsAt cs name k) (i + 1))))) ∧
    (H.run R cs).1.builds = Nat.count (fun k => ∃ name, BuildsAt cs name k) cs.length ∧
    (∀ (H : Hosted ρ) slot name I,
      (H.step R (.share slot name I)).1.selections = H.selections ∧
        ∀ other ≠ name, held (H.step R (.share slot name I)).1.registry other =
          held H.registry other) ∧
    (∀ (H : Hosted ρ) name,
      (H.step R (.forget name)).1.selections = H.selections ∧
        ∀ other ≠ name, held (H.step R (.forget name)).1.registry other =
          held H.registry other) ∧
    (∀ name S I, AllPass R H cs name S I →
      (∀ i, AsksAt cs name i →
        ∃ isNew builds, (H.run R cs).2[i]? = some (.ok (.shared (S.clip I) isNew builds))) ∧
      ((∀ m, ¬ForgetsAt cs name m) → (∃ i, AsksAt cs name i) → ∃! j, BuildsAt cs name j)) ∧
    (H.run R cs).2 = ((start H.selections).run cs).2.map .ok := by
  have hstart : Mirrors held H (start H.selections) := ⟨rfl, hbuilds, hheld⟩
  obtain ⟨hmirrors, houtcomes⟩ := hstart.run hR cs
  refine ⟨fun i name => exists_builtAt_outcome hR hstart, ?_, step_share_frame hR,
    step_forget_frame hR, fun name S I hpass => ⟨fun i hasks => ?_, ?_⟩, houtcomes⟩
  · rw [hmirrors.builds, Workspace.run, ← stateBefore_length, builds_before]
  · obtain ⟨j, slot, I', hj, -, houtcome⟩ := exists_builtAt_outcome hR hstart hasks
    obtain ⟨hsource, rfl⟩ := hpass j slot I' hj
    rw [hsource] at houtcome
    exact ⟨_, _, houtcome⟩
  · rintro hkept ⟨i, hasks⟩
    exact existsUnique_buildsAt hkept hasks

/-- The name `clip` is taken out between two callers, and `once` is not. -/
theorem shared_selection_is_first_build_forgotten :
    let a : Key := ⟨[0x61]⟩
    let m : Key := ⟨[0x6D]⟩
    let z : Key := ⟨[0x7A]⟩
    let I : Interval := .icc m z
    let S : Selection := ⟨[.interval (.icc a z)]⟩
    let R : Registry (Shared Selection) String Selection := Shared.registry
    let H : Hosted (Shared Selection) := ⟨.empty, .empty, 0⟩
    let cs : List Command := [.appendInterval "s" (.icc a z), .share "s" "once" I,
      .share "s" "clip" I, .share "s" "once" I, .appendKey "s" m, .share "s" "clip" .empty,
      .forget "clip", .share "s" "clip" I]
    (∀ name, H.registry.stored.get? name = none) ∧ H.builds = 0 ∧
      AsksAt cs "clip" 5 ∧ AsksAt cs "clip" 7 ∧
      (H.run R cs).2[5]? = some (.ok (.shared (S.clip I) false 2)) ∧
      (H.run R cs).2[7]? = some (.ok (.shared ((S.appendKey m).clip I) true 3)) ∧
      AllPass R H cs "once" S I ∧ (∀ m, ¬ForgetsAt cs "once" m) ∧
      AsksAt cs "once" 1 ∧ (∃! j, BuildsAt cs "once" j) ∧ "once" ≠ "clip" ∧
      (H.step R (.forget "clip")).1.registry.stored.get? "once" =
        H.registry.stored.get? "once" := by
  intro a m z I S R H cs
  have hpass : AllPass R H cs "once" S I := by
    intro i slot I' h
    have hi : i < 8 := (List.getElem?_eq_some_iff.mp h).1
    interval_cases i <;> simp [cs] at h
    all_goals
      obtain ⟨rfl, rfl⟩ := h
      exact ⟨by decide, rfl⟩
  have hkept : ∀ m, ¬ForgetsAt cs "once" m := by
    intro m hforgets
    obtain ⟨c, hc, -⟩ := Option.bind_eq_some_iff.mp hforgets
    have hm : m < 8 := (List.getElem?_eq_some_iff.mp hc).1
    interval_cases m <;> exact absurd hforgets (by decide)
  have hasks : AsksAt cs "once" 1 := by decide
  have hasks5 : AsksAt cs "clip" 5 := by decide
  have hasks7 : AsksAt cs "clip" 7 := by decide
  obtain ⟨houtcome, -, -, hforget, hagree, -⟩ := shared_selection_is_first_build (R := R)
    (H := H) Shared.keepsFirst_registry (fun _ => rfl) rfl cs
  refine ⟨fun _ => rfl, rfl, hasks5, hasks7, ?_, ?_, hpass, hkept, hasks,
    (hagree "once" S I hpass).2 hkept ⟨1, hasks⟩, by decide,
    (hforget H "clip").2 "once" (by decide)⟩
  · obtain ⟨j, slot, J, hj, hbuilt, h⟩ := houtcome 5 "clip" hasks5
    obtain rfl : j = 2 := hbuilt.unique (by decide)
    cases hj
    exact h
  · obtain ⟨j, slot, J, hj, hbuilt, h⟩ := houtcome 7 "clip" hasks7
    obtain rfl : j = 7 := hbuilt.unique (by decide)
    cases hj
    exact h

end Hosted

end SortedTable
