import Mathlib.Order.Basic
import SortedTable.Proofs.Text.Decimal
import SortedTable.Proofs.Text.SelfDelimiting
import SortedTable.Version

/-!
# What the text of a version rule tells

A version rule is shown in one line, and the line tells two things: which rule it is, and which
times pass.

The first is a matter of decimal numbers. A number can be told from its digits, and where it ends
can be told from what stands behind it, which is a comma or a bracket and never a digit or a sign.
So the text of a rule can be read from the left, one number after the other
(`SortedTable.VersionRule.selfDelimiting_chars`). The upper end of a stretch of time may be shown by
a word instead, which begins with a sign that no number begins with.

The second is a matter of the stop at time 0, which is none. The rule makes two exceptions for it,
one in what passes and one in what is shown, and they have to be the same. They are: a stretch of
time admits all times from its start on exactly if its stop is 0, because any other stop shuts out
at least the later one of the start and the stop itself
(`SortedTable.VersionRule.forall_admits_iff`).
-/

namespace SortedTable

namespace VersionRule

variable {start stop time : Int64} {n : ℤ}

/-! ### The upper end -/

theorem repr_toInt_injective :
    Function.Injective fun time : Int64 => (Int.repr time.toInt).toList :=
  fun _ _ h => Int64.toInt_inj.mp (Text.intRepr_injective (String.toList_inj.mp h))

theorem stopChars_zero : stopChars 0 = "+inf".toList := if_pos rfl

theorem stopChars_of_ne (h : stop ≠ 0) : stopChars stop = (Int.repr stop.toInt).toList := if_neg h

/-- No number begins with the sign of the word. -/
theorem repr_ne_plusInf : (Int.repr n).toList ≠ "+inf".toList := by
  intro h
  have hplus : '+' ∈ (Int.repr n).toList := by
    rw [h]
    decide
  exact Text.notMem_intRepr rfl (by decide) hplus

/-- **The word is shown for the stop at time 0 only.** -/
theorem stopChars_eq_plusInf_iff : stopChars stop = "+inf".toList ↔ stop = 0 := by
  constructor
  · intro h
    by_contra hstop
    rw [stopChars_of_ne hstop] at h
    exact repr_ne_plusInf h
  · rintro rfl
    exact stopChars_zero

theorem stopChars_injective : Function.Injective stopChars := by
  intro stop stop' h
  by_cases hstop : stop' = 0
  · rw [hstop, stopChars_zero, stopChars_eq_plusInf_iff] at h
    rw [h, hstop]
  · have hstop' : stop ≠ 0 := by
      rintro rfl
      exact hstop (stopChars_eq_plusInf_iff.mp (h.symm.trans stopChars_zero))
    rw [stopChars_of_ne hstop, stopChars_of_ne hstop'] at h
    exact repr_toInt_injective h

theorem bracket_notMem_stopChars (stop : Int64) : ')' ∉ stopChars stop := by
  by_cases hstop : stop = 0
  · rw [hstop, stopChars_zero]
    decide
  · rw [stopChars_of_ne hstop]
    exact Text.notMem_intRepr rfl (by decide)

/-! ### The whole text -/

theorem chars_newest (count : UInt32) : (newest count).chars =
    "latest(".toList ++ (Nat.repr count.toNat).toList ++ ")".toList := rfl

theorem chars_written (start stop : Int64) : (written start stop).chars =
    "timestamp_range_micros[".toList ++ (Int.repr start.toInt).toList ++ ", ".toList ++
      stopChars stop ++ ")".toList := rfl

theorem selfDelimiting_newest : SelfDelimiting fun count => (newest count).chars := by
  have hcount : SelfDelimiting fun count : UInt32 => (Nat.repr count.toNat).toList ++ ")".toList :=
    .of_notMem (fun _ _ h => UInt32.toNat_inj.mp (Text.natRepr_injective (String.toList_inj.mp h)))
      (fun _ => Text.notMem_natRepr rfl) []
  simpa only [chars_newest, List.append_assoc] using hcount.append_left "latest(".toList

theorem selfDelimiting_written :
    SelfDelimiting fun ends : Int64 × Int64 => (written ends.1 ends.2).chars := by
  have hstart : SelfDelimiting fun start : Int64 => (Int.repr start.toInt).toList ++ ", ".toList :=
    .of_notMem repr_toInt_injective (fun _ => Text.notMem_intRepr rfl (by decide)) [' ']
  have hstop : SelfDelimiting fun stop => stopChars stop ++ ")".toList :=
    .of_notMem stopChars_injective bracket_notMem_stopChars []
  simpa only [chars_written, List.append_assoc] using
    (hstart.append hstop).append_left "timestamp_range_micros[".toList

/-- **The text of a rule is self-delimiting.** Its first letter tells which kind of rule it is. -/
theorem selfDelimiting_chars : SelfDelimiting chars := by
  intro r s rest rest' h
  cases r <;> cases s
  case newest.newest =>
    obtain ⟨rfl, hrest⟩ := selfDelimiting_newest h
    exact ⟨rfl, hrest⟩
  case written.written start stop start' stop' =>
    obtain ⟨hends, hrest⟩ := selfDelimiting_written (a := (start, stop)) (b := (start', stop')) h
    obtain ⟨rfl, rfl⟩ := Prod.mk.inj hends
    exact ⟨rfl, hrest⟩
  all_goals simp [chars_newest, chars_written] at h

theorem toList_text (r : VersionRule) : r.text.toList = r.chars := String.toList_ofList

/-- The text of a stretch of time with this upper end. -/
def stretch (start : Int64) (upper : String) : String :=
  "timestamp_range_micros[" ++ Int.repr start.toInt ++ ", " ++ upper ++ ")"

theorem toList_stretch (start : Int64) (upper : String) :
    (stretch start upper).toList = "timestamp_range_micros[".toList ++
      (Int.repr start.toInt).toList ++ ", ".toList ++ upper.toList ++ ")".toList :=
  calc (stretch start upper).toList
    _ = ("timestamp_range_micros[" ++ Int.repr start.toInt ++ ", " ++ upper ++ ")").toList := rfl
    _ = _ := by simp only [String.toList_append]

theorem text_written_eq_iff {upper : String} :
    (written start stop).text = stretch start upper ↔ stopChars stop = upper.toList := by
  rw [← String.toList_inj, toList_text, chars_written, toList_stretch, List.append_left_inj,
    List.append_right_inj]

/-! ### What passes, and what is shown -/

theorem admits_written :
    (written start stop).admits time = true ↔ start ≤ time ∧ (stop = 0 ∨ time < stop) := by
  simp [admits]

/-- **Only the stop at time 0 shuts nothing out.** Any other shuts out itself, if it is not before
the start, and otherwise the start. -/
theorem forall_admits_iff :
    (∀ time, start ≤ time → (written start stop).admits time = true) ↔ stop = 0 := by
  simp only [admits_written]
  constructor
  · intro h
    rcases Int64.le_total start stop with hle | hle
    · exact (h stop hle).2.resolve_right Int64.lt_irrefl
    · exact (h start (Int64.le_refl start)).2.resolve_right (Int64.not_lt.mpr hle)
  · rintro rfl time htime
    exact ⟨htime, Or.inl rfl⟩

/-- **The text of a version rule is faithful.** Rules with the same text are the same. The text of a
stretch of time shows `+inf` as its upper end exactly if every time from the start on passes; else
it shows the stop, and the times that pass are those from the start on and before the stop. -/
theorem text_is_faithful :
    (∀ r s : VersionRule, r.text = s.text ↔ r = s) ∧
      ∀ start stop : Int64,
        ((written start stop).text = stretch start "+inf" ↔
            ∀ time, start ≤ time → (written start stop).admits time = true) ∧
          ((written start stop).text ≠ stretch start "+inf" →
            (written start stop).text = stretch start (Int.repr stop.toInt) ∧
              ∀ time, (written start stop).admits time = true ↔ start ≤ time ∧ time < stop) := by
  refine ⟨fun r s => ?_, fun start stop => ?_⟩
  · rw [text, text, String.ofList_inj, selfDelimiting_chars.injective.eq_iff]
  · rw [ne_eq, text_written_eq_iff, stopChars_eq_plusInf_iff, forall_admits_iff]
    refine ⟨Iff.rfl, fun hstop => ⟨text_written_eq_iff.mpr (stopChars_of_ne hstop), fun time => ?_⟩⟩
    rw [admits_written, or_iff_right hstop]

/-- A stretch of time the wrong way round and below 0. It is shown as it is, and nothing passes. -/
theorem text_is_faithful_reversed :
    (written (-3) (-5)).text ≠ stretch (-3) "+inf" ∧
      (written (-3) (-5)).text = "timestamp_range_micros[-3, -5)" ∧
      ∀ time, (written (-3) (-5)).admits time = false := by
  have hshown : (written (-3) (-5)).text ≠ stretch (-3) "+inf" := by decide
  obtain ⟨htext, hadmits⟩ := (text_is_faithful.2 (-3) (-5)).2 hshown
  refine ⟨hshown, htext.trans (by decide), fun time => ?_⟩
  rw [Bool.eq_false_iff, ne_eq, hadmits]
  rintro ⟨hstart, hstop⟩
  exact absurd (Int64.lt_of_le_of_lt hstart hstop) (by decide)

end VersionRule

end SortedTable
