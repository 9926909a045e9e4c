import Mathlib.Data.List.Basic
import SortedTable.Proofs.Journal.Lines
import SortedTable.Proofs.Text.Decimal

/-!
# What the journal tells of a refusal

A refused cell leaves two traces, the fault that is returned and a record in the journal. They are
written apart from one another, and this file shows that they say the same thing.

To say so, a record is read. It is a line of words with single blanks between them, and a word with
an equals sign in it is a **field**, a name and a value (`SortedTable.Record.fields`). The names of
types and the digits of numbers contain neither of the two characters, so what was put into a record
comes out of it again. What has to be put in is `SortedTable.Fault.details`, and from these the
fault can be told (`SortedTable.Fault.details_injective`). So a record tells of one action and one
fault, and of no other (`SortedTable.Record.tells_line_iff`).
-/

namespace SortedTable

/-! ### What there is to tell of a fault -/

namespace CellType

/-- The type that goes by a name. -/
def named? : String → Option CellType
  | "bool" => some (.word .bool)
  | "int32" => some (.word .int32)
  | "int64" => some (.word .int64)
  | "float" => some (.word .float)
  | "double" => some (.word .double)
  | "string" => some .string
  | "int8" => some (.nominal .int8)
  | "int16" => some (.nominal .int16)
  | "uint8" => some (.nominal .uint8)
  | "uint16" => some (.nominal .uint16)
  | "uint32" => some (.nominal .uint32)
  | "uint64" => some (.nominal .uint64)
  | "half" => some (.nominal .half)
  | _ => none

theorem named?_name (t : CellType) : named? t.name = some t := by
  rcases t with w | _ | n
  · cases w <;> rfl
  · rfl
  · cases n <;> rfl

/-- **Types have different names.** -/
theorem name_injective : Function.Injective name := by
  intro t t' h
  have hnamed : some t = some t' := by rw [← named?_name t, h, named?_name t']
  exact Option.some.inj hnamed

end CellType

namespace Fault

/-- **What a record has to tell of a fault**: the reason, and the types and numbers that come with
it. -/
def details : Fault → List (String × String)
  | unsupported t => [("data_type", t.name), ("reason", "unsupported")]
  | malformed t expected actual =>
    [("data_type", t.name), ("expected", Nat.repr expected), ("actual", Nat.repr actual),
      ("reason", "length")]
  | mismatch expected actual =>
    [("data_type", expected.name), ("value_type", actual.name), ("reason", "mismatch")]

/-- **The details tell the fault.** -/
theorem details_injective : Function.Injective details := by
  intro f f' h
  -- Faults of different kinds differ in the number of their details, or in the name of one.
  cases f <;> cases f' <;>
    simp_all [details, CellType.name_injective.eq_iff, Text.natRepr_injective.eq_iff]

end Fault

/-! ### Reading a record -/

namespace Record

variable {s : String}

/-- A name and a value as one word. -/
def word (field : String × String) : String := field.1 ++ "=" ++ field.2

/-- The name and the value that a word consists of, if it does. -/
def field? (w : List Char) : Option (String × String) :=
  match w.splitOn '=' with
  | [name, value] => some (String.ofList name, String.ofList value)
  | _ => none

/-- **The fields of a record**, in their order. -/
def fields (record : String) : List (String × String) :=
  (record.toList.splitOn ' ').filterMap field?

/-- A text that has in it none of the characters that divide a record. -/
def Plain (s : String) : Prop := ' ' ∉ s.toList ∧ '=' ∉ s.toList

instance (s : String) : Decidable (Plain s) :=
  inferInstanceAs (Decidable (' ' ∉ s.toList ∧ '=' ∉ s.toList))

theorem field?_of_plain (hs : Plain s) : field? s.toList = none := by
  rw [field?, List.splitOn_eq_singleton hs.2]

theorem toList_word (field : String × String) :
    (word field).toList = field.1.toList ++ '=' :: field.2.toList := by
  rw [word, String.toList_append, String.toList_append, List.append_assoc]
  rfl

/-- A name and a value come apart again. -/
theorem field?_word {field : String × String} (hname : Plain field.1) (hvalue : Plain field.2) :
    field? (word field).toList = some field := by
  rw [field?, toList_word, List.splitOn_append_cons_self_of_not_mem hname.2,
    List.splitOn_eq_singleton hvalue.2]
  simp

/-- **What was put into a line of words comes out of it**, and of the other words nothing does. -/
theorem fields_intercalate {heads : List String} {told : List (String × String)}
    (hne : heads ≠ []) (hheads : ∀ s ∈ heads, Plain s)
    (htold : ∀ field ∈ told, Plain field.1 ∧ Plain field.2) :
    fields (" ".intercalate (heads ++ told.map word)) = told := by
  have hblank : ∀ w ∈ (heads ++ told.map word).map String.toList, ' ' ∉ w := by
    simp only [List.map_append, List.map_map, List.mem_append, List.mem_map]
    rintro w (⟨s, hs, rfl⟩ | ⟨field, hfield, rfl⟩)
    · exact (hheads s hs).1
    · obtain ⟨hname, hvalue⟩ := htold field hfield
      simp [toList_word, hname.1, hvalue.1]
  have hheads' : (heads.map String.toList).filterMap field? = [] := by
    simp only [List.filterMap_map, List.filterMap_eq_nil_iff]
    exact fun s hs => field?_of_plain (hheads s hs)
  have htold' : ((told.map word).map String.toList).filterMap field? = told := by
    simp only [List.filterMap_map]
    calc told.filterMap ((field? ∘ String.toList) ∘ word)
      _ = told.filterMap some :=
        List.filterMap_congr fun field h => field?_word (htold field h).1 (htold field h).2
      _ = told := List.filterMap_some
  have hseparator : " ".toList = [' '] := rfl
  rw [fields, String.toList_intercalate, hseparator,
    List.splitOn_intercalate _ hblank (by simp [hne]), List.map_append, List.filterMap_append,
    hheads', htold', List.nil_append]

/-! ### The record of a refusal -/

/-- The digits of a number divide nothing. -/
theorem plain_repr (n : ℕ) : Plain (Nat.repr n) :=
  ⟨Text.notMem_natRepr rfl, Text.notMem_natRepr rfl⟩

/-- The name of a type divides nothing. -/
theorem plain_name (t : CellType) : Plain t.name := by
  rcases t with w | _ | n
  · cases w <;> decide
  · decide
  · cases n <;> decide

theorem plain_details (fault : Fault) :
    ∀ field ∈ fault.details, Plain field.1 ∧ Plain field.2 := by
  cases fault with
  | unsupported t =>
    simp only [Fault.details, List.forall_mem_cons]
    exact ⟨⟨by decide, plain_name t⟩, ⟨by decide, by decide⟩, List.forall_mem_nil _⟩
  | malformed t expected actual =>
    simp only [Fault.details, List.forall_mem_cons]
    exact ⟨⟨by decide, plain_name t⟩, ⟨by decide, plain_repr expected⟩,
      ⟨by decide, plain_repr actual⟩, ⟨by decide, by decide⟩, List.forall_mem_nil _⟩
  | mismatch expected actual =>
    simp only [Fault.details, List.forall_mem_cons]
    exact ⟨⟨by decide, plain_name expected⟩, ⟨by decide, plain_name actual⟩,
      ⟨by decide, by decide⟩, List.forall_mem_nil _⟩

/-- What a refusal is called, by what was being done. -/
def event : CellAction → String
  | .encode => "encode_rejected"
  | .decode => "decode_rejected"

theorem event_eq_append (action : CellAction) : event action = action.name ++ "_rejected" := by
  cases action <;> decide

/-- What there is to tell of a refusal: what it is called, and what there is to tell of the
fault. -/
def told (action : CellAction) (fault : Fault) : List (String × String) :=
  ("event", event action) :: fault.details

theorem plain_told (action : CellAction) (fault : Fault) :
    ∀ field ∈ told action fault, Plain field.1 ∧ Plain field.2 := by
  refine List.forall_mem_cons.mpr ⟨?_, plain_details fault⟩
  cases action <;> exact ⟨by decide, by decide⟩

/-- **What there is to tell of a refusal tells it.** -/
theorem told_injective {a a' : CellAction} {f f' : Fault} (h : told a f = told a' f') :
    a = a' ∧ f = f' := by
  obtain ⟨haction, hfault⟩ := List.cons.inj h
  refine ⟨?_, Fault.details_injective hfault⟩
  have hevent : event a = event a' := congrArg Prod.snd haction
  revert hevent
  cases a <;> cases a' <;> decide

/-- What is written of a fault are its details, as words. -/
theorem fields_eq_intercalate (fault : Fault) :
    fault.fields = " ".intercalate (fault.details.map word) := by
  have htype : "data_type=" = "data_type" ++ "=" := by decide
  cases fault with
  | unsupported t =>
    have hreason : " reason=unsupported" = " " ++ "reason" ++ "=" ++ "unsupported" := by decide
    calc (Fault.unsupported t).fields
      _ = "data_type=" ++ t.name ++ " reason=unsupported" := rfl
      _ = word ("data_type", t.name) ++ " " ++ word ("reason", "unsupported") := by
        rw [htype, hreason]
        simp only [word, String.append_assoc]
  | malformed t expected actual =>
    have hexpected : " expected=" = " " ++ "expected" ++ "=" := by decide
    have hactual : " actual=" = " " ++ "actual" ++ "=" := by decide
    have hreason : " reason=length" = " " ++ "reason" ++ "=" ++ "length" := by decide
    calc (Fault.malformed t expected actual).fields
      _ = "data_type=" ++ t.name ++ " expected=" ++ Nat.repr expected ++ " actual=" ++
          Nat.repr actual ++ " reason=length" := rfl
      _ = word ("data_type", t.name) ++ " " ++ word ("expected", Nat.repr expected) ++ " " ++
          word ("actual", Nat.repr actual) ++ " " ++ word ("reason", "length") := by
        rw [htype, hexpected, hactual, hreason]
        simp only [word, String.append_assoc]
  | mismatch expected actual =>
    have hvalue : " value_type=" = " " ++ "value_type" ++ "=" := by decide
    have hreason : " reason=mismatch" = " " ++ "reason" ++ "=" ++ "mismatch" := by decide
    calc (Fault.mismatch expected actual).fields
      _ = "data_type=" ++ expected.name ++ " value_type=" ++ actual.name ++
          " reason=mismatch" := rfl
      _ = word ("data_type", expected.name) ++ " " ++ word ("value_type", actual.name) ++ " " ++
          word ("reason", "mismatch") := by
        rw [htype, hvalue, hreason]
        simp only [word, String.append_assoc]

/-- The record of a refusal is a line of words, the last of which tell the refusal. -/
theorem line_rejected (action : CellAction) (fault : Fault) :
    (Event.rejected action fault).line =
      " ".intercalate (["DEBUG", journalName] ++ (told action fault).map word) := by
  have hdetails : fault.details.map word ≠ [] := by cases fault <;> simp [Fault.details]
  have hevent : "event=" = "event" ++ "=" := by decide
  have hrejected : "_rejected " = "_rejected" ++ " " := by decide
  calc (Event.rejected action fault).line
    _ = "DEBUG" ++ " " ++ journalName ++ " " ++
        ("event=" ++ action.name ++ "_rejected " ++ fault.fields) := rfl
    _ = "DEBUG" ++ " " ++ (journalName ++ " " ++ (word ("event", event action) ++
        " " ++ " ".intercalate (fault.details.map word))) := by
      rw [event_eq_append, hevent, hrejected, fields_eq_intercalate]
      simp only [word, String.append_assoc]
    _ = " ".intercalate (["DEBUG", journalName] ++ (told action fault).map word) := by
      simp only [told, List.map_cons, List.cons_append, List.nil_append,
        String.intercalate_cons_cons, String.intercalate_cons_of_ne_nil hdetails]

/-- **A record tells of a refusal** if its fields are what there is to tell of it. -/
def Tells (record : String) (action : CellAction) (fault : Fault) : Prop :=
  fields record = told action fault

/-- **The record of a refusal tells of it**, and of no other. -/
theorem tells_line_iff {a a' : CellAction} {f f' : Fault} :
    Tells (Event.rejected a f).line a' f' ↔ a' = a ∧ f' = f := by
  have hfields : fields (Event.rejected a f).line = told a f := by
    rw [line_rejected]
    exact fields_intercalate (List.cons_ne_nil _ _) (by decide) (plain_told a f)
  rw [Tells, hfields]
  constructor
  · intro h
    exact told_injective h.symm
  · rintro ⟨rfl, rfl⟩
    rfl

end Record

/-! ### What is shown of a result -/

namespace Verbosity

/-- **What the journal owes to a result.** Of a success it shows nothing. Of a refusal it shows one
record where everything is shown, which tells of the action and of the fault returned and of nothing
else, and otherwise none. -/
def Accounts {α : Type} (V : Verbosity) (action : CellAction) (result : Except Fault α)
    (records : List String) : Prop :=
  match result with
  | .ok _ => records = []
  | .error fault =>
    (V = .debug → ∃ record, records = [record] ∧
      ∀ action' fault', Record.Tells record action' fault' ↔ action' = action ∧ fault' = fault) ∧
    (V ≠ .debug → records = [])

/-- What is shown of the report of a result is what is owed to it. -/
theorem accounts_report {α : Type} (V : Verbosity) (action : CellAction)
    (result : Except Fault α) : V.Accounts action result (V.lines (report action result)) := by
  cases result with
  | ok x => exact rfl
  | error fault =>
    rw [report, lines_singleton, Event.severity]
    refine ⟨fun hV => ?_, fun hV => if_neg (mt shows_debug_iff.mp hV)⟩
    exact ⟨_, if_pos (shows_debug_iff.mpr hV), fun action' fault' => Record.tells_line_iff⟩

end Verbosity

/-- **The journal agrees with what is returned.** In either layout, and however much is shown,
writing and reading return what they return without a journal. Where they succeed no record is
shown. Where they are refused, and everything is shown, exactly one record is: it tells whether a
cell was to be written or to be read, and of the fault that is returned the reason, the types and
the numbers, so that no other refusal could have left it. Where less is shown there is none. -/
theorem Layout.records_agree_with_results (L : Layout) (V : Verbosity) :
    (∀ v t, (L.encodeReported v t).1 = L.encode v t ∧
        V.Accounts .encode (L.encode v t) (V.lines (L.encodeReported v t).2)) ∧
      ∀ c t, (L.decodeReported c t).1 = L.decode c t ∧
        V.Accounts .decode (L.decode c t) (V.lines (L.decodeReported c t).2) := by
  refine ⟨fun v t => ?_, fun c t => ?_⟩
  · rw [encodeReported_eq]
    exact ⟨rfl, V.accounts_report .encode (L.encode v t)⟩
  · rw [decodeReported_eq]
    exact ⟨rfl, V.accounts_report .decode (L.decode c t)⟩

end SortedTable
