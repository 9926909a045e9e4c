import Mathlib.Data.List.Basic
import SortedTable.Proofs.Cell.RoundTrip
import SortedTable.Proofs.Journal.Lines
import SortedTable.Setting.Session

/-!
# The layout of a program is settled once

A program may change the variable at any time and ask for its layout at any time, openly or by
writing or reading a cell. Of all that it does in a run, only one action decides on the layout: the
first that needs it (`SortedTable.Action.FirstNeed`).

To say so the run is compared with one in which nothing is ever settled.
`SortedTable.Action.outcome` is what an action gives in a program whose layout is some fixed `L`
from the start. A run gives exactly these outcomes, with one `L` for all of it, and the first action
that needs the layout gives besides the event that it was settled. `L` is what the variable selects
at that moment.

All of this comes from one description of a step, `SortedTable.Session.step_eq`. Whether settled or
not, a program has a layout at any time, the one that it would reply with if it were asked
(`SortedTable.Session.layout`). An action that needs it replies with it and keeps it; a layout once
kept is never replaced (`SortedTable.Session.resolved_before_of_needsLayout`). So a cell that was
written in the layout of the program can be read in it later.
-/

namespace SortedTable

/-! ### What an action does, given the layout -/

namespace Action

variable {a : Action}

/-- Whether an action needs the layout of the program. -/
def needsLayout : Action → Bool
  | setVariable _ => false
  | readSetting => false
  | askLayout => true
  | encode _ _ => true
  | decode _ _ => true

/-- What the variable holds after an action, if it held `raw` before. -/
def variableAfter (raw : Option (List UInt8)) : Action → Option (List UInt8)
  | setVariable new => new
  | _ => raw

/-- **What an action gives in a program whose layout is `L` from the start**, while the variable
holds `raw`. -/
def outcome (raw : Option (List UInt8)) (L : Layout) : Action → Reply × List Event
  | setVariable _ => (.done, [])
  | readSetting => (.layout (Toggle.layout raw), [])
  | askLayout => (.layout L, [])
  | encode v t => (.cell (L.encode v t), report .encode (L.encode v t))
  | decode c t => (.value (L.decode c t), report .decode (L.decode c t))

/-- An action that does not need the layout gives the same in any. -/
theorem outcome_eq_of_not_needsLayout (ha : a.needsLayout = false) (raw : Option (List UInt8))
    (L L' : Layout) : a.outcome raw L = a.outcome raw L' := by
  cases a with
  | setVariable new => rfl
  | readSetting => rfl
  | _ => cases ha

/-- Nothing is reported of such an action. -/
theorem outcome_snd_of_not_needsLayout (ha : a.needsLayout = false) (raw : Option (List UInt8))
    (L : Layout) : (a.outcome raw L).2 = [] := by
  cases a with
  | setVariable new => rfl
  | readSetting => rfl
  | _ => cases ha

/-- Whatever the layout, an action by itself reports refusals only. -/
theorem severity_of_mem_outcome {raw : Option (List UInt8)} {L : Layout} {e : Event}
    (he : e ∈ (a.outcome raw L).2) : e.severity = .debug := by
  cases a with
  | encode v t => exact severity_of_mem_report he
  | decode c t => exact severity_of_mem_report he
  | _ => cases he

/-- **The first action of a list that needs the layout**, and its place in the list. -/
structure FirstNeed (as : List Action) (i : Nat) (a : Action) : Prop where
  /-- The action is at this place. -/
  getElem? : as[i]? = some a
  /-- It needs the layout. -/
  needsLayout : a.needsLayout = true
  /-- No action before it does. -/
  not_before : ∀ b ∈ as.take i, b.needsLayout = false

/-- Either no action of a list needs the layout or one is the first that does. -/
theorem none_or_exists_firstNeed (as : List Action) :
    (∀ a ∈ as, a.needsLayout = false) ∨ ∃ i a, FirstNeed as i a := by
  induction as with
  | nil => exact Or.inl fun a ha => by cases ha
  | cons a as ih =>
    cases ha : a.needsLayout with
    | true => exact Or.inr ⟨0, a, rfl, ha, fun b hb => by cases hb⟩
    | false =>
      rcases ih with hnone | ⟨i, b, h⟩
      · exact Or.inl (List.forall_mem_cons.mpr ⟨ha, hnone⟩)
      · refine Or.inr ⟨i + 1, b, h.getElem?, h.needsLayout, ?_⟩
        exact List.forall_mem_cons.mpr ⟨ha, h.not_before⟩

end Action

namespace Session

variable {s : Session} {L : Layout} {a : Action} {as : List Action} {i j : Nat}

/-! ### One action -/

/-- **The layout a program has at a time**, settled or not: the one it would reply with. -/
def layout (s : Session) : Layout := s.resolved.getD s.setting

/-- The event that the layout of the program is settled now, if an action needs it and it is not. -/
def settling (s : Session) (a : Action) : List Event :=
  if a.needsLayout ∧ s.resolved = none then [.layoutResolved s.layout Toggle.variableName] else []

/-- **What one action does.** It acts as in a program that has had its layout from the start, keeps
the layout if it needs it, and reports it if nobody did before. -/
theorem step_eq (s : Session) (a : Action) : s.step a =
    (⟨a.variableAfter s.value, if a.needsLayout then some s.layout else s.resolved⟩,
      (a.outcome s.value s.layout).1, s.settling a ++ (a.outcome s.value s.layout).2) := by
  obtain ⟨value, resolved⟩ := s
  cases a with
  | encode v t =>
    simp only [step, Layout.encodeReported_eq]
    cases resolved <;> rfl
  | decode c t =>
    simp only [step, Layout.decodeReported_eq]
    cases resolved <;> rfl
  | _ => cases resolved <;> rfl

/-- A kept layout is the layout of the program. -/
theorem layout_of_resolved (h : s.resolved = some L) : s.layout = L := by
  rw [layout, h, Option.getD_some]

/-- **A layout that is kept stays.** -/
theorem resolved_step_of_resolved (h : s.resolved = some L) (a : Action) :
    (s.step a).1.resolved = some L := by
  rw [step_eq, layout_of_resolved h, h]
  exact ite_self _

/-- An action that needs the layout keeps it. -/
theorem resolved_step_of_needsLayout (ha : a.needsLayout = true) :
    (s.step a).1.resolved = some s.layout := by
  rw [step_eq]
  exact if_pos ha

/-- The others leave it as open as it was. -/
theorem resolved_step_of_not_needsLayout (ha : a.needsLayout = false) :
    (s.step a).1.resolved = s.resolved := by
  rw [step_eq, ha]
  rfl

theorem settling_of_resolved (h : s.resolved = some L) (a : Action) : s.settling a = [] :=
  if_neg fun hnone => by simp [h] at hnone

theorem settling_of_not_needsLayout (ha : a.needsLayout = false) : s.settling a = [] :=
  if_neg fun hneeds => by simp [ha] at hneeds

/-! ### A run -/

/-- What the variable holds at the end of a run. -/
theorem value_run (s : Session) (as : List Action) :
    (s.run as).1.value = as.foldl Action.variableAfter s.value := by
  have hstep : ∀ (s : Session) a, (s.step a).1.value = a.variableAfter s.value :=
    fun s a => by rw [step_eq]
  exact view_runSteps hstep s as

/-- While no action needs the layout, it is left open. -/
theorem resolved_run_of_not_needsLayout (has : ∀ a ∈ as, a.needsLayout = false) :
    (s.run as).1.resolved = s.resolved := by
  have hstep : ∀ a ∈ as, ∀ t : Session, t.resolved = s.resolved →
      (t.step a).1.resolved = s.resolved :=
    fun a ha _ ht => (resolved_step_of_not_needsLayout (has a ha)).trans ht
  exact runSteps_invariant hstep rfl

/-! ### What is reported -/

/-- All that is reported in a run, in order. -/
def events (s : Session) (as : List Action) : List Event := (s.run as).2.flatMap Prod.snd

theorem events_cons (s : Session) (a : Action) (as : List Action) :
    s.events (a :: as) =
      s.settling a ++ (a.outcome s.value s.layout).2 ++ (s.step a).1.events as := by
  rw [events, run, runSteps, List.flatMap_cons, step_eq]
  rfl

theorem events_append (s : Session) (as bs : List Action) :
    s.events (as ++ bs) = s.events as ++ (s.run as).1.events bs := by
  rw [events, run, runSteps_append, List.flatMap_append]
  rfl

/-- While no action needs the layout, nothing is reported. -/
theorem events_of_not_needsLayout (has : ∀ a ∈ as, a.needsLayout = false) : s.events as = [] := by
  have hstep : ∀ a ∈ as, ∀ t : Session, (t.step a).2.2 = [] := by
    intro a ha t
    rw [step_eq, settling_of_not_needsLayout (has a ha),
      Action.outcome_snd_of_not_needsLayout (has a ha)]
    rfl
  have hall : ∀ given ∈ (s.run as).2, given.2 = [] :=
    forall_mem_runSteps (P := fun _ => True) (fun a ha t _ => ⟨trivial, hstep a ha t⟩) trivial
  exact List.flatMap_eq_nil_iff.mpr hall

/-- Once a layout is kept, only refusals are reported. -/
theorem severity_of_mem_events (h : s.resolved = some L) {e : Event} (he : e ∈ s.events as) :
    e.severity = .debug := by
  have hstep : ∀ a ∈ as, ∀ t : Session, t.resolved = some L →
      (t.step a).1.resolved = some L ∧ ∀ e ∈ (t.step a).2.2, e.severity = .debug := by
    intro a _ t ht
    refine ⟨resolved_step_of_resolved ht a, ?_⟩
    rw [step_eq, settling_of_resolved ht, List.nil_append]
    exact fun e he => Action.severity_of_mem_outcome he
  have hall : ∀ given ∈ (s.run as).2, ∀ e ∈ given.2, e.severity = .debug :=
    forall_mem_runSteps (P := fun t : Session => t.resolved = some L) hstep h
  obtain ⟨given, hgiven, he⟩ := List.mem_flatMap.mp he
  exact hall given hgiven e he

/-! ### A run from the start -/

variable {raw : Option (List UInt8)} {b : Action}

/-- A program that has just started, with the variable as it was handed over. -/
def start (raw : Option (List UInt8)) : Session := ⟨raw, none⟩

/-- What the variable holds when the action at a place is reached. -/
def heldAt (raw : Option (List UInt8)) (as : List Action) (i : Nat) : Option (List UInt8) :=
  (as.take i).foldl Action.variableAfter raw

/-- The state in which the action at a place is done. -/
def before (raw : Option (List UInt8)) (as : List Action) (i : Nat) : Session :=
  stateBefore step (start raw) as i

theorem value_before : (before raw as i).value = heldAt raw as i := value_run _ _

/-- **Whoever needs the layout settles it for all that come later.** -/
theorem resolved_before_of_needsLayout (h : as[i]? = some a) (ha : a.needsLayout = true)
    (hij : i < j) : (before raw as j).resolved = some (before raw as i).layout := by
  have hkept : (before raw as (i + 1)).resolved = some (before raw as i).layout := by
    rw [before, stateBefore_succ h]
    exact resolved_step_of_needsLayout ha
  have hstep : ∀ b (s : Session), s.resolved = some (before raw as i).layout →
      (s.step b).1.resolved = some (before raw as i).layout :=
    fun b _ hs => resolved_step_of_resolved hs b
  exact stateBefore_invariant hstep hkept hij

/-- **What the action at a place gives.** -/
theorem getElem?_run_start (h : as[i]? = some a) : ((start raw).run as).2[i]? =
    some ((a.outcome (heldAt raw as i) (before raw as i).layout).1,
      (before raw as i).settling a ++
        (a.outcome (heldAt raw as i) (before raw as i).layout).2) := by
  rw [run, getElem?_runSteps, h, Option.map_some, ← before, step_eq, value_before]

/-! ### The first need -/

section FirstNeed

variable (h : Action.FirstNeed as i a)

include h

/-- Until the layout is first needed it is open. -/
theorem resolved_before_firstNeed : (before raw as i).resolved = none :=
  resolved_run_of_not_needsLayout h.not_before

/-- When the layout is first needed it is what the variable selects. -/
theorem layout_before_firstNeed :
    (before raw as i).layout = Toggle.layout (heldAt raw as i) := by
  rw [layout, resolved_before_firstNeed h, Option.getD_none, setting, value_before]

/-- **The first action that needs the layout** gets what the variable selects, and reports it. -/
theorem getElem?_run_firstNeed : ((start raw).run as).2[i]? =
    some ((a.outcome (heldAt raw as i) (Toggle.layout (heldAt raw as i))).1,
      .layoutResolved (Toggle.layout (heldAt raw as i)) Toggle.variableName ::
        (a.outcome (heldAt raw as i) (Toggle.layout (heldAt raw as i))).2) := by
  rw [getElem?_run_start h.getElem?, settling, if_pos ⟨h.needsLayout, resolved_before_firstNeed h⟩,
    layout_before_firstNeed h]
  rfl

/-- **Every other action** gives what it gives in a program that has had that layout from the
start. -/
theorem getElem?_run_of_ne (hij : i ≠ j) (hb : as[j]? = some b) : ((start raw).run as).2[j]? =
    some (b.outcome (heldAt raw as j) (Toggle.layout (heldAt raw as i))) := by
  rw [getElem?_run_start hb]
  -- Behind place `i` the layout is kept, and in front of it the action does not need one.
  rcases Nat.lt_or_gt_of_ne hij with hij | hji
  · have hkept : (before raw as j).resolved = some (before raw as i).layout :=
      resolved_before_of_needsLayout h.getElem? h.needsLayout hij
    rw [settling_of_resolved hkept, layout_of_resolved hkept, layout_before_firstNeed h]
    rfl
  · have hplace : (as.take i)[j]? = some b := by rw [List.getElem?_take_of_lt hji, hb]
    have hbneeds : b.needsLayout = false := h.not_before b (List.mem_of_getElem? hplace)
    rw [settling_of_not_needsLayout hbneeds, Action.outcome_eq_of_not_needsLayout hbneeds]
    rfl

/-- All that a run reports is that the layout was settled, and then refusals. -/
theorem exists_events_firstNeed : ∃ refusals, (∀ e ∈ refusals, e.severity = .debug) ∧
    (start raw).events as =
      .layoutResolved (Toggle.layout (heldAt raw as i)) Toggle.variableName :: refusals := by
  have hsplit : as = as.take i ++ a :: as.drop (i + 1) := by
    obtain ⟨hi, hget⟩ := List.getElem?_eq_some_iff.mp h.getElem?
    rw [← hget, ← List.drop_eq_getElem_cons hi, List.take_append_drop]
  have hbefore : ((start raw).run (as.take i)).1 = before raw as i := rfl
  have hkept : ((before raw as i).step a).1.resolved = some (before raw as i).layout :=
    resolved_step_of_needsLayout h.needsLayout
  -- Nothing is reported up to place `i`. There the layout is reported and after it only refusals:
  -- those of the action itself and, as the layout is kept from then on, those of the rest.
  refine ⟨(a.outcome (heldAt raw as i) (Toggle.layout (heldAt raw as i))).2 ++
    ((before raw as i).step a).1.events (as.drop (i + 1)), fun e he => ?_, ?_⟩
  · rcases List.mem_append.mp he with he | he
    · exact Action.severity_of_mem_outcome he
    · exact severity_of_mem_events hkept he
  · conv_lhs => rw [hsplit]
    rw [events_append, events_of_not_needsLayout h.not_before, hbefore, events_cons, settling,
      if_pos ⟨h.needsLayout, resolved_before_firstNeed h⟩, value_before, layout_before_firstNeed h]
    rfl

end FirstNeed

/-- A cell that was written reads as what was written, at any later place. -/
theorem reply_decode_of_encode {v : Value} {t : CellType} {c : Cell} {events : List Event}
    (hij : i < j) (hencode : as[i]? = some (Action.encode v t))
    (hdecode : as[j]? = some (Action.decode c t))
    (hreply : ((start raw).run as).2[i]? = some (Reply.cell (.ok c), events)) :
    ∃ events', ((start raw).run as).2[j]? = some (Reply.value (.ok v), events') := by
  have hwrite : (before raw as i).layout.encode v t = .ok c := by
    rw [getElem?_run_start hencode] at hreply
    exact Reply.cell.inj (congrArg Prod.fst (Option.some.inj hreply))
  have hlayout : (before raw as j).layout = (before raw as i).layout :=
    layout_of_resolved (resolved_before_of_needsLayout hencode rfl hij)
  have hread : (before raw as j).layout.decode c t = .ok v := by
    rw [hlayout]
    exact Layout.decode_of_encode hwrite
  rw [getElem?_run_start hdecode, Action.outcome, hread]
  exact ⟨_, rfl⟩

/-- The record that the program has settled on a layout, as it is shown. -/
def settledRecord : Layout → String
  | .standard =>
    "INFO rowscope event=codec_strategy_resolved strategy=standard env=ROWSCOPE_CUSTOM_CODEC"
  | .custom =>
    "INFO rowscope event=codec_strategy_resolved strategy=custom env=ROWSCOPE_CUSTOM_CODEC"

/-- **The event is shown by that record.** -/
theorem line_layoutResolved_variableName (L : Layout) :
    (Event.layoutResolved L Toggle.variableName).line = settledRecord L := by
  cases L <;> decide

/-- **A program settles on one layout for all of a run.** Whatever is done in a run, and however
much of the journal is shown:

* who reads the setting gets what the variable selects at that moment, and nothing is reported of
  it;
* either no action needs the layout of the program, and nothing is reported at all, or one is the
  first to need it;
* the first to need it gets what the variable selects at that moment. Every other action gives what
  it gives in a program that has had this layout from the start, whatever the variable holds by
  then. That a layout was settled is reported by the first alone, so of the records that are shown
  one says so, if any are shown, and it names this layout;
* a cell that was written reads as the value that was written, at any later place. -/
theorem run_settles_one_layout (raw : Option (List UInt8)) (as : List Action) (V : Verbosity) :
    let outcomes := ((start raw).run as).2
    let reported := outcomes.flatMap Prod.snd
    (∀ i, as[i]? = some Action.readSetting →
        outcomes[i]? = some (Reply.layout (Toggle.layout (heldAt raw as i)), [])) ∧
      ((∀ a ∈ as, a.needsLayout = false) ∧ reported = [] ∨ ∃ i a, Action.FirstNeed as i a) ∧
      (∀ i a, Action.FirstNeed as i a →
        let L := Toggle.layout (heldAt raw as i)
        let first := a.outcome (heldAt raw as i) L
        outcomes[i]? = some (first.1, .layoutResolved L Toggle.variableName :: first.2) ∧
          (∀ j b, i ≠ j → as[j]? = some b →
            outcomes[j]? = some (b.outcome (heldAt raw as j) L)) ∧
          ∀ L', (V.lines reported).count (settledRecord L') =
            if V ≠ .off ∧ L' = L then 1 else 0) ∧
      ∀ (i j : Nat) (v : Value) (t : CellType) (c : Cell), i < j →
        as[i]? = some (Action.encode v t) → as[j]? = some (Action.decode c t) →
        (∃ events, outcomes[i]? = some (Reply.cell (.ok c), events)) →
          ∃ events, outcomes[j]? = some (Reply.value (.ok v), events) := by
  intro outcomes reported
  refine ⟨fun i hread => ?_, ?_, fun i a h => ?_, ?_⟩
  · rw [getElem?_run_start hread, settling_of_not_needsLayout rfl]
    rfl
  · rcases Action.none_or_exists_firstNeed as with hnone | hfirst
    · exact Or.inl ⟨hnone, events_of_not_needsLayout hnone⟩
    · exact Or.inr hfirst
  · refine ⟨getElem?_run_firstNeed h, fun j b => getElem?_run_of_ne h, fun L' => ?_⟩
    obtain ⟨refusals, hrefusals, hreported⟩ : ∃ refusals,
        (∀ e ∈ refusals, e.severity = .debug) ∧ reported =
          .layoutResolved (Toggle.layout (heldAt raw as i)) Toggle.variableName :: refusals :=
      exists_events_firstNeed h
    rw [hreported, ← line_layoutResolved_variableName,
      Verbosity.count_lines_layoutResolved hrefusals]
  · rintro i j v t c hij hencode hdecode ⟨events, hreply⟩
    exact reply_decode_of_encode hij hencode hdecode hreply

/-- The variable is on when the program starts, and off when an integer is written. It is switched
on again before the cell is read. -/
theorem run_settles_one_layout_switched :
    let on : Option (List UInt8) := some [0x59, 0x65, 0x73]
    let one : Action := .encode (.word (.int32 1)) (.word .int32)
    let as : List Action :=
      [.readSetting, .setVariable none, one, .setVariable on, .readSetting,
        .decode [0, 0, 0, 1] (.word .int32)]
    let outcomes := ((start on).run as).2
    Action.FirstNeed as 2 one ∧
      outcomes[0]? = some (Reply.layout .custom, []) ∧
      outcomes[4]? = some (Reply.layout .custom, []) ∧
      outcomes[2]? = some (Reply.cell (.ok [0, 0, 0, 1]),
        [.layoutResolved .standard Toggle.variableName]) ∧
      (∃ events, outcomes[5]? = some (Reply.value (.ok (.word (.int32 1))), events)) ∧
      (Verbosity.info.lines (outcomes.flatMap Prod.snd)).count (settledRecord .standard) = 1 := by
  intro on one as outcomes
  have hfirst : Action.FirstNeed as 2 one := ⟨rfl, rfl, by decide⟩
  have hon : Toggle.layout on = .custom := by decide
  obtain ⟨hread, -, hneed, hlater⟩ := run_settles_one_layout on as .info
  obtain ⟨hwrite, -, hcount⟩ := hneed 2 one hfirst
  refine ⟨hfirst, ?_, ?_, hwrite, hlater 2 5 _ _ _ (by decide) rfl rfl ⟨_, hwrite⟩, ?_⟩
  · rw [← hon]
    exact hread 0 rfl
  · rw [← hon]
    exact hread 4 rfl
  · exact hcount .standard

end Session

end SortedTable
