import SortedTable.Selection.Workspace

/-!
# Registries

The shared store of a workspace is one of many places where selections can be kept under names. A
program that hosts the library brings its own, and what the library does with it is one thing: it
asks for a name and says how the value is built if the name is absent.

`SortedTable.Registry` is such a place, whatever it is made of, and
`SortedTable.Registry.KeepsFirst` is what its callers rely on. A value can fail to be built, and
then nothing is kept; to clip a selection never fails. `SortedTable.Hosted` is a workspace that has
its shared selections kept by a registry. The store of `SortedTable.Shared` is a registry that keeps the
contract (`SortedTable.Shared.keepsFirst_registry`).
-/

universe u v w

namespace SortedTable

/-- **A registry**: what can be done with values that are kept under names. -/
structure Registry (ρ : Type u) (ε : Type v) (α : Type w) where
  /-- The value under a name, built if the registry sees fit, and whether that was tried. -/
  findOrBuild : ρ → String → (Unit → Except ε α) → ρ × Except ε α × Bool
  /-- Takes a name out, and says whether it was there. -/
  forget : ρ → String → ρ × Bool

/-- **The contract of a registry**, in terms of what it holds: the first value that is built under a
name stays until the name is taken out, and none is built as long as there is one. -/
structure Registry.KeepsFirst {ρ : Type u} {ε : Type v} {α : Type w} (R : Registry ρ ε α)
    (held : ρ → String → Option α) : Prop where
  /-- A value that is held is handed out, and nothing is built. -/
  findOrBuild_of_some : ∀ s name build v, held s name = some v →
    (R.findOrBuild s name build).2 = (.ok v, false)
  /-- Where none is held, the value that is built is handed out, or the fault. -/
  findOrBuild_of_none : ∀ s name build, held s name = none →
    (R.findOrBuild s name build).2 = (build (), true)
  /-- What is handed out is held under the name from then on, and a fault is not; the other names
  are left alone. -/
  held_findOrBuild : ∀ s name build other, held (R.findOrBuild s name build).1 other =
    if other = name then (R.findOrBuild s name build).2.1.toOption else held s other
  /-- Taking a name out tells whether a value was held. -/
  forget_snd : ∀ s name, (R.forget s name).2 = (held s name).isSome
  /-- A name that is taken out holds nothing; the other names are left alone. -/
  held_forget : ∀ s name other, held (R.forget s name).1 other =
    if other = name then none else held s other

/-- **Asks a registry for the part of a selection inside an interval**, by name. The selection is
clipped by the registry, if at all, and only looked at. -/
def Registry.share {ρ : Type u} {ε : Type v} (R : Registry ρ ε Selection) (s : ρ) (name : String)
    (S : Selection) (I : Interval) : ρ × Except ε Selection × Bool :=
  R.findOrBuild s name fun _ => .ok (S.clip I)

/-! ### The store of a workspace -/

namespace Shared

variable {ε : Type v} {α : Type w} {s : Shared α} {name : String} {v : α}

/-- The value under a name, built if the name is absent. A fault leaves the store as it is. -/
def tryFindOrBuild (s : Shared α) (name : String) (build : Unit → Except ε α) :
    Shared α × Except ε α × Bool :=
  match s.stored.get? name with
  | some value => (s, .ok value, false)
  | none =>
    match build () with
    | .ok value => ((s.findOrBuild name fun _ => value).1, .ok value, true)
    | .error fault => (s, .error fault, true)

/-- The shared store as a registry. -/
def registry : Registry (Shared α) ε α := ⟨tryFindOrBuild, forget⟩

theorem findOrBuild_of_some (h : s.stored.get? name = some v) (build : Unit → α) :
    s.findOrBuild name build = (s, v, false) := by
  rw [findOrBuild, h]

theorem findOrBuild_of_none (h : s.stored.get? name = none) (build : Unit → α) :
    s.findOrBuild name build =
      (⟨s.stored.put name (build ()), s.builds + 1⟩, build (), true) := by
  rw [findOrBuild, h]

theorem tryFindOrBuild_of_some (h : s.stored.get? name = some v) (build : Unit → Except ε α) :
    s.tryFindOrBuild name build = (s, .ok v, false) := by
  rw [tryFindOrBuild, h]

theorem tryFindOrBuild_of_none (h : s.stored.get? name = none) {build : Unit → Except ε α}
    (hbuild : build () = .ok v) : s.tryFindOrBuild name build =
      (⟨s.stored.put name v, s.builds + 1⟩, .ok v, true) := by
  simp only [tryFindOrBuild, h, hbuild, findOrBuild_of_none h]

theorem tryFindOrBuild_of_fault (h : s.stored.get? name = none) {build : Unit → Except ε α}
    {fault : ε} (hbuild : build () = .error fault) :
    s.tryFindOrBuild name build = (s, .error fault, true) := by
  rw [tryFindOrBuild, h, hbuild]

theorem get?_tryFindOrBuild (s : Shared α) (name : String) (build : Unit → Except ε α)
    (other : String) : (s.tryFindOrBuild name build).1.stored.get? other =
      if other = name then (s.tryFindOrBuild name build).2.1.toOption
      else s.stored.get? other := by
  have hsame : ∀ {o : Option α}, s.stored.get? name = o →
      s.stored.get? other = if other = name then o else s.stored.get? other := by
    intro o h
    by_cases hother : other = name
    · rw [if_pos hother, hother, h]
    · rw [if_neg hother]
  cases h : s.stored.get? name with
  | some v =>
    rw [tryFindOrBuild_of_some h]
    exact hsame h
  | none =>
    cases hbuild : build () with
    | ok v => rw [tryFindOrBuild_of_none h hbuild]; exact Store.get?_put s.stored name other v
    | error fault =>
      rw [tryFindOrBuild_of_fault h hbuild]
      exact hsame h

/-- **The shared store keeps the contract of a registry.** -/
theorem keepsFirst_registry :
    (registry : Registry (Shared α) ε α).KeepsFirst fun s name => s.stored.get? name where
  findOrBuild_of_some _ _ build _ h := congrArg Prod.snd (tryFindOrBuild_of_some h build)
  findOrBuild_of_none _ _ build h := by
    cases hbuild : build () with
    | ok v => exact congrArg Prod.snd (tryFindOrBuild_of_none h hbuild)
    | error fault => exact congrArg Prod.snd (tryFindOrBuild_of_fault h hbuild)
  held_findOrBuild := get?_tryFindOrBuild
  forget_snd _ _ := rfl
  held_forget s name other := Store.get?_drop s.stored name other

end Shared

/-! ### A workspace with a registry -/

/-- **Selections under names, and a registry for those that are shared.** What the registry has
built is counted outside it. -/
structure Hosted (ρ : Type u) where
  /-- The selections that have been written. -/
  selections : Store Selection
  /-- The registry as it is now. -/
  registry : ρ
  /-- How often the registry has built so far. -/
  builds : Nat

namespace Hosted

variable {ρ : Type u} {ε : Type v}

/-- **Does one command.** What is shared goes through the registry, and what the registry refuses is
not given back; all other commands are those of a workspace. -/
def step (R : Registry ρ ε Selection) (H : Hosted ρ) : Command → Hosted ρ × Except ε Outcome
  | .share slot name I =>
    let source := (H.selections.get? slot).getD .empty
    let (registry, S, isNew) := R.share H.registry name source I
    let builds := H.builds + isNew.toNat
    (⟨H.selections, registry, builds⟩, S.map fun S => .shared S isNew builds)
  | .forget name =>
    let (registry, wasThere) := R.forget H.registry name
    (⟨H.selections, registry, H.builds⟩, .ok (.forgotten wasThere))
  | c =>
    let (W, outcome) := (⟨H.selections, .empty⟩ : Workspace).step c
    (⟨W.selections, H.registry, H.builds⟩, .ok outcome)

/-- Does the commands in order, and collects what they give back. -/
def run (R : Registry ρ ε Selection) (H : Hosted ρ) (cs : List Command) :
    Hosted ρ × List (Except ε Outcome) :=
  runSteps (step R) H cs

end Hosted

end SortedTable
