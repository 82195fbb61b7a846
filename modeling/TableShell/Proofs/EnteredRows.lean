import TableShell.Proofs.DisplayedValues
import TableShell.Proofs.Recognition

/-
Rows entered by a line and selected by the next.

A row is entered as a list of literals, each under a column. Where no quoted text in it has a
parenthesis that closes, the line is read as what it says, and the table is then selected with the
row behind those it had, whatever else the texts hold and whatever its columns are called.
-/
namespace TableShell

open Text

/-- A number in decimal, or a text in quotes. -/
inductive Literal
  | int (n : Int64)
  | text (s : String)

namespace Literal

def write : Literal → String
  | int n => (Value.int n).display
  | text s => literal s

/-- The text that a literal is read as. -/
def content : Literal → String
  | int n => (Value.int n).display
  | text s => trimmed s

/-- A quoted text has no line feed and closes no parenthesis. -/
def IsPlain : Literal → Prop
  | int _ => True
  | text s => '\n' ∉ s.toList ∧ ')' ∉ s.toList

@[simp]
theorem toList_write_int (n : Int64) :
    (int n).write.toList = Numeral.Integer.write n.toInt :=
  String.toList_ofList

@[simp]
theorem toList_write_text (s : String) : (text s).write.toList = Fields.quoted s.toList :=
  String.toList_ofList

theorem write_ne_nil (l : Literal) : l.write.toList ≠ [] := by
  cases l with
  | int n =>
    rw [toList_write_int]
    exact Numeral.Integer.write_ne_nil n.toInt
  | text s =>
    rw [toList_write_text]
    exact Fields.quoted_ne_nil s.toList

theorem not_mem_write {l : Literal} (h : l.IsPlain) :
    '\n' ∉ l.write.toList ∧ ')' ∉ l.write.toList := by
  cases l with
  | int n =>
    rw [toList_write_int]
    exact ⟨fun hm => absurd (Numeral.Integer.mem_write hm) (by decide),
      fun hm => absurd (Numeral.Integer.mem_write hm) (by decide)⟩
  | text s =>
    rw [toList_write_text]
    exact ⟨Fields.not_mem_quoted (by decide) h.1, Fields.not_mem_quoted (by decide) h.2⟩

theorem isRead_write (l : Literal) : Fields.IsRead l.write.toList l.content.toList := by
  cases l with
  | int n =>
    have hcontent : (int n).content = (int n).write := rfl
    rw [hcontent, toList_write_int]
    exact Fields.isRead_plain (Numeral.Integer.write_ne_nil n.toInt) fun c hc =>
      Fields.plain_of_mem_write hc
  | text s =>
    rw [toList_write_text, content, trimmed, String.toList_ofList]
    exact Fields.isRead_quoted s.toList

end Literal

namespace Insertion

/-- The line that enters literals under columns. -/
def written (table : String) (given : List (String × Literal)) : String :=
  "insert into " ++ table ++ " (" ++ ", ".intercalate (given.map Prod.fst) ++ ") values (" ++
    ", ".intercalate (given.map fun g => g.2.write) ++ ")"

/-- What the line says. -/
def entered (given : List (String × Literal)) : OrderedMap Value :=
  .ofList (given.map fun g => (g.1, .text g.2.content))

section Written

variable {table : String} {given : List (String × Literal)}

theorem toList_written (table : String) (given : List (String × Literal)) :
    (written table given).toList = layout table (given.map Prod.fst)
      ([',', ' '].intercalate (given.map fun g => g.2.write.toList)) := by
  unfold written
  rw [toList_layout, List.map_map]
  rfl

theorem classify_written (table : String) (given : List (String × Literal)) :
    Command.classify (written table given) = .insert (written table given) :=
  Command.classify_layout (toList_written table given)

theorem read_written (ht : Name.isValid table = true)
    (hk : isPhrase "values".toList table.toList = false) (hne : given ≠ [])
    (hc : ∀ g ∈ given, Name.isValid g.1 = true) (hp : ∀ g ∈ given, g.2.IsPlain) :
    read (written table given) = .ok ⟨table, entered given⟩ := by
  have hparen : ')' ∉ [',', ' '].intercalate (given.map fun g => g.2.write.toList) :=
    not_mem_intercalate (by decide) (List.forall_mem_map.2 fun g hg =>
      (Literal.not_mem_write (hp g hg)).2)
  have hnot : marked ([',', ' '].intercalate (given.map fun g => g.2.write.toList) ++ [')']) =
      false := by
    rw [marked_append_of_not_mem hparen]
    decide
  have hread := read_texts ht hk hne hc (fun g _ => g.2.isRead_write) (fun g _ => g.2.write_ne_nil)
    (fun g hg => (Literal.not_mem_write (hp g hg)).1) hnot (toList_written table given)
  simp only [String.ofList_toList] at hread
  exact hread

theorem get?_entered (hd : (given.map Prod.fst).Nodup) (column : String) :
    (entered given).get? column = (given.lookup column).map fun l => .text l.content := by
  have hnodup : ((given.map fun g => (g.1, Value.text g.2.content)).map Prod.fst).Nodup := by
    rwa [List.map_map]
  rw [entered, OrderedMap.get?, OrderedMap.entries_ofList hnodup]
  exact OrderedMap.lookup_map given (fun l => Value.text l.content) column

/-- The record that is entered: each literal converted to the type of its column, and null under
the columns that the line leaves out. -/
theorem record_entered (hd : (given.map Prod.fst).Nodup) (schema : Schema) :
    schema.record (entered given) = schema.map fun a =>
      (a.name, ((given.lookup a.name).map fun l => (Value.text l.content).coerce a.type).getD
        .null) := by
  simp only [Schema.record, get?_entered hd, Option.map_map]
  rfl

end Written

end Insertion

namespace Session

variable {session : Session} {table : String} {stored : Table}
  {given : List (String × Literal)}

/-- Literals under columns of a table are entered into it. -/
theorem process_written (hs : session.WellFormed) (ht : session.table? table = some stored)
    (hk : isPhrase "values".toList table.toList = false) (hne : given ≠ [])
    (hc : ∀ g ∈ given, g.1 ∈ stored.schema.map Attribute.name) (hp : ∀ g ∈ given, g.2.IsPlain) :
    (session.process (Insertion.written table given)).text = "1 row inserted into " ++ table ∧
      (session.process (Insertion.written table given)).session.table? table =
        some (stored.insert (Insertion.entered given)) := by
  have hvalid : ∀ g ∈ given, Name.isValid g.1 = true := by
    intro g hg
    obtain ⟨a, ha, hname⟩ := List.mem_map.1 (hc g hg)
    exact hname ▸ (wellFormed_of_table? hs ht).names_valid a ha
  have hread := Insertion.read_written (isValid_of_table? hs ht) hk hne hvalid hp
  exact process_insert (Insertion.classify_written table given) hread ht

/-- What a line enters is selected by the next one, as one row behind all that were there. -/
theorem entered_row_selected (h : session.Reachable) (ht : session.table? table = some stored)
    (hw : isPhrase "where".toList table.toList = false)
    (hk : isPhrase "values".toList table.toList = false) (hne : given ≠ [])
    (hd : (given.map Prod.fst).Nodup) (hc : ∀ g ∈ given, g.1 ∈ stored.schema.map Attribute.name)
    (hp : ∀ g ∈ given, g.2.IsPlain) :
    let inserted := session.process (Insertion.written table given)
    inserted.text = "1 row inserted into " ++ table ∧
      ∃ (rows : List Row) (row : Row), rows.map OrderedMap.entries = stored.records ∧
        (row.entries = stored.schema.map fun a =>
          (a.name, ((given.lookup a.name).map fun l => (Value.text l.content).coerce a.type).getD
            .null)) ∧
        (inserted.session.process ("select * from " ++ table)).text =
          Row.printAll (rows ++ [row]) := by
  intro inserted
  have hstored := wellFormed_of_table? h.wellFormed ht
  obtain ⟨htext, hinserted⟩ := process_written h.wellFormed ht hk hne hc hp
  have hselected := Table.entries_select_none
    (Table.insert_wellFormed hstored (Insertion.entered given))
  rw [Table.records_insert hstored, Insertion.record_entered hd] at hselected
  obtain ⟨rows, last, hselect, hrows, hlast⟩ := List.map_eq_append_iff.1 hselected
  obtain ⟨row, rfl, hrow⟩ := List.map_eq_singleton_iff.1 hlast
  refine ⟨htext, rows, row, hrows, hrow, ?_⟩
  rw [process_select (isValid_of_table? h.wellFormed ht) hw hinserted, hselect]

/-- A keyword within the name of the table and both as columns, a number below zero, and a text with
a comma, a quote, a parenthesis that opens and the keyword between blanks. -/
theorem entered_row_selected_behind :
    let session := (start .empty).run [.createDatabase "d", .useDatabase "d",
      .createTable "my_values (where int, values varchar, b int)",
      .insert "insert into my_values (b) values (1)"]
    let given := [("values", Literal.text " it's, (a values (b "), ("where", .int (-7))]
    (session.process (Insertion.written "my_values" given)).text =
        "1 row inserted into my_values" ∧
      ∃ (rows : List Row) (row : Row),
        rows.map OrderedMap.entries = [[("where", .null), ("values", .null), ("b", .int 1)]] ∧
        row.entries =
          [("where", .int (-7)), ("values", .text "it's, (a values (b"), ("b", .null)] ∧
        ((session.process (Insertion.written "my_values" given)).session.process
          "select * from my_values").text = Row.printAll (rows ++ [row]) := by
  intro session given
  let created : Table := ⟨"my_values", [⟨"where", .int⟩, ⟨"values", .varchar⟩, ⟨"b", .int⟩],
    [.empty "where" .int, .empty "values" .varchar, .empty "b" .int], 0⟩
  have hstored : session.table? "my_values" =
      some (created.insert (.ofList [("b", .text "1")])) := by
    decide +kernel
  have hplain : ∀ g ∈ given, g.2.IsPlain :=
    List.forall_mem_cons.2 ⟨⟨by decide, by decide⟩, List.forall_mem_singleton.2 trivial⟩
  obtain ⟨htext, rows, row, hrows, hrow, hselect⟩ := entered_row_selected
    ⟨.empty, .empty, _, rfl⟩ hstored (by decide) (by decide) (List.cons_ne_nil _ _) (by decide)
    (by decide) hplain
  exact ⟨htext, rows, row, hrows.trans (by decide +kernel), hrow.trans (by decide +kernel), hselect⟩

end Session
end TableShell
