import TableShell.Proofs.AppendOnly
import TableShell.Proofs.Dialogue
import TableShell.Proofs.Excerpts
import TableShell.Proofs.Retrieval

/-
Responses keep to the lines of the dialogue.

No text that is stored has a line feed, whatever was run: names have none by the naming rule, and
the lists of an insertion have to be on one line. So the only line feeds in a response are those
between the lines of selected rows, as long as the line it answers has one at most at its end.
-/
namespace TableShell

open Text

namespace Text

/-- What trimming leaves ends with no blank, so a blank in it stands further in front. -/
theorem mem_dropLast_of_mem_trim {c : Char} (hc : isBlank c = true) {s : List Char}
    (h : c ∈ trim s) : c ∈ s.dropLast := by
  obtain ⟨a, b, -, -, hs⟩ := exists_append_trim s
  have hlast := (trimmed_trim s).2
  generalize trim s = t at h hs hlast
  cases t using List.reverseRecOn with
  | nil => exact absurd h List.not_mem_nil
  | append_singleton t d =>
    have hd : isBlank d = false := hlast d List.getLast?_concat
    have hne : c ≠ d := fun he => Bool.false_ne_true (hd.symm.trans (he ▸ hc))
    have hm : c ∈ t := by
      rcases List.mem_append.1 h with h | h
      · exact h
      · exact absurd (List.mem_singleton.1 h) hne
    have hcut : s = (a ++ t) ++ d :: b := by
      rw [hs]
      simp only [List.append_assoc, List.singleton_append]
    rw [hcut, List.dropLast_append_of_ne_nil (List.cons_ne_nil d b)]
    exact List.mem_append_left _ (List.mem_append_right a hm)

theorem count_intercalate {c : Char} {ts : List (List Char)} (h : ∀ t ∈ ts, c ∉ t) :
    ([c].intercalate ts).count c = ts.length - 1 := by
  induction ts with
  | nil => rfl
  | cons t ts ih =>
    rw [List.forall_mem_cons] at h
    cases ts with
    | nil => rw [List.intercalate_singleton, List.count_eq_zero_of_not_mem h.1]; rfl
    | cons t' ts =>
      rw [List.intercalate_cons_cons, List.count_append, List.count_append, ih h.2,
        List.count_eq_zero_of_not_mem h.1, List.count_singleton_self]
      simp only [List.length_cons]
      omega

end Text

theorem newline_not_mem_append {s t : String} (hs : '\n' ∉ s.toList) (ht : '\n' ∉ t.toList) :
    '\n' ∉ (s ++ t).toList := by
  rw [String.toList_append]
  exact fun h => (List.mem_append.1 h).elim hs ht

theorem newline_not_mem_listed {texts : List String} (h : ∀ text ∈ texts, '\n' ∉ text.toList) :
    '\n' ∉ (", ".intercalate texts).toList := by
  rw [String.toList_intercalate]
  exact not_mem_intercalate (by decide) (List.forall_mem_map.2 h)

theorem Name.newline_not_mem {name : String} (h : isValid name = true) : '\n' ∉ name.toList :=
  fun hm => ne_of_isNameChar ((isValid_iff.1 h).2 _ hm) (by decide) rfl

theorem Error.newline_not_mem_message {e : Error} (h : '\n' ∉ e.echo) :
    '\n' ∉ e.message.toList := by
  cases e with
  | noColumns | createTableSyntax | selectSyntax | insertSyntax | countMismatch | unknownCommand
  | noActiveDatabase => decide +kernel
  | unknownDatabase name => exact newline_not_mem_append (by decide +kernel) h
  | _ =>
    exact newline_not_mem_append (newline_not_mem_append (by decide +kernel) h) (by decide +kernel)

/-! ### Rows -/

namespace Value

/-- The value is no text with a line feed in it. -/
def OneLine : Value → Prop
  | text s => '\n' ∉ s.toList
  | _ => True

instance : DecidablePred OneLine
  | text s => inferInstanceAs (Decidable ('\n' ∉ s.toList))
  | null | int _ => isTrue trivial

theorem newline_not_mem_display (n : Int64) : '\n' ∉ (int n).display.toList := by
  rw [display, String.toList_ofList]
  intro h
  rcases Numeral.Integer.mem_write h with h | h
  · exact absurd h (by decide)
  · exact absurd h (by decide)

theorem coerce_oneLine {v : Value} (h : v.OneLine) (t : DataType) : (v.coerce t).OneLine := by
  cases v with
  | null => exact trivial
  | int n =>
    cases t with
    | int => exact trivial
    | varchar => exact newline_not_mem_display n
  | text s =>
    cases t with
    | int => exact trivial
    | varchar => exact h

end Value

namespace Row

/-- The line of the column names and the lines of the rows. -/
def lines : List Row → List String
  | [] => ["No rows"]
  | row :: rows => ", ".intercalate row.keys :: (row :: rows).map print

theorem printAll_eq (rows : List Row) : printAll rows = "\n".intercalate (lines rows) := by
  cases rows with
  | nil => exact String.intercalate_singleton.symm
  | cons row rows => rfl

theorem length_lines (rows : List Row) : (lines rows).length - 1 = rows.length := by
  cases rows with
  | nil => rfl
  | cons row rows => rw [lines, List.length_cons, List.length_map, Nat.add_sub_cancel]

theorem newline_not_mem_printCell {v : Value} (h : v.OneLine) : '\n' ∉ (printCell v).toList := by
  cases v with
  | null => decide
  | int n => exact Value.newline_not_mem_display n
  | text s =>
    exact newline_not_mem_append (newline_not_mem_append (by decide) h) (by decide)

theorem newline_not_mem_lines {rows : List Row}
    (hkeys : ∀ row ∈ rows, ∀ name ∈ row.keys, '\n' ∉ name.toList)
    (hcells : ∀ row ∈ rows, ∀ e ∈ row.entries, e.2.OneLine) :
    ∀ line ∈ lines rows, '\n' ∉ line.toList := by
  have hprint : ∀ row ∈ rows, '\n' ∉ row.print.toList := by
    intro row hr
    refine newline_not_mem_listed fun cell hc => ?_
    obtain ⟨v, hv, rfl⟩ := List.mem_map.1 hc
    obtain ⟨e, he, rfl⟩ := List.mem_map.1 hv
    exact newline_not_mem_printCell (hcells row hr e he)
  cases rows with
  | nil => exact List.forall_mem_singleton.2 (by decide)
  | cons row rows =>
    rw [lines, List.forall_mem_cons, List.forall_mem_map]
    exact ⟨newline_not_mem_listed (hkeys row List.mem_cons_self), hprint⟩

/-- Printed rows are parted by their line feeds into these lines. -/
theorem splitOn_printAll {rows : List Row} (h : ∀ line ∈ lines rows, '\n' ∉ line.toList) :
    (printAll rows).toList.splitOn '\n' = (lines rows).map String.toList ∧
      (printAll rows).toList.count '\n' = rows.length := by
  have htext : (printAll rows).toList = ['\n'].intercalate ((lines rows).map String.toList) := by
    rw [printAll_eq, String.toList_intercalate]
    rfl
  have hlines : ∀ line ∈ (lines rows).map String.toList, '\n' ∉ line := List.forall_mem_map.2 h
  have hne : (lines rows).map String.toList ≠ [] := by
    cases rows <;> exact List.cons_ne_nil _ _
  rw [htext, count_intercalate hlines, List.length_map, length_lines]
  exact ⟨List.splitOn_intercalate _ hlines hne, rfl⟩

end Row

/-! ### Stored texts -/

theorem Insertion.values_oneLine {statement : String} {insertion : Insertion}
    (h : read statement = .ok insertion) : ∀ e ∈ insertion.values.entries, e.2.OneLine := by
  obtain ⟨table, columns, values, ht, -, hvalues⟩ := exists_texts_of_read h
  obtain ⟨target, lists, -, -, -, -, -, -, -, hlist⟩ := texts?_eq_some_iff.1 ht
  obtain ⟨behind, ⟨_, _, -, -, -, -, hline, -⟩, -⟩ := valueList?_spec hlist
  intro e he
  obtain ⟨field, hf, hv⟩ := hvalues e he
  rw [hv, Value.OneLine, String.toList_ofList]
  exact fun hm => hline (Fields.split_subset hf hm)

namespace Table

/-- No text in a cell of the table has a line feed. -/
def OneLine (table : Table) : Prop :=
  ∀ record ∈ table.records, ∀ e ∈ record, e.2.OneLine

theorem insert_oneLine {table : Table} (hw : table.WellFormed) (h : table.OneLine)
    {given : OrderedMap Value} (hg : ∀ e ∈ given.entries, e.2.OneLine) :
    (table.insert given).OneLine := by
  intro record hr e he
  rw [records_insert hw, List.mem_append, List.mem_singleton] at hr
  rcases hr with hr | rfl
  · exact h record hr e he
  · obtain ⟨a, -, rfl⟩ := List.mem_map.1 he
    cases hv : given.get? a.name with
    | none => exact trivial
    | some v => exact Value.coerce_oneLine (hg _ (OrderedMap.get?_eq_some_iff.1 hv)) a.type

/-- No line of rows with the columns of a table has a line feed, if no text in them has. -/
theorem newline_not_mem_lines_of_keys {table : Table} (hw : table.WellFormed) {rows : List Row}
    (hkeys : ∀ row ∈ rows, row.keys = table.schema.map Attribute.name)
    (hcells : ∀ row ∈ rows, ∀ e ∈ row.entries, e.2.OneLine) :
    ∀ line ∈ Row.lines rows, '\n' ∉ line.toList := by
  refine Row.newline_not_mem_lines (fun row hr name hn => ?_) hcells
  rw [hkeys row hr] at hn
  obtain ⟨a, ha, rfl⟩ := List.mem_map.1 hn
  exact Name.newline_not_mem (hw.names_valid a ha)

theorem newline_not_mem_select {table : Table} (hw : table.WellFormed) (h : table.OneLine)
    (condition : Option Condition) :
    ∀ line ∈ Row.lines (table.select condition), '\n' ∉ line.toList := by
  refine newline_not_mem_lines_of_keys hw
    (fun row hr => Row.keys_of_fits (fits_of_mem_select hw hr)) (fun row hr => ?_)
  have hm := List.mem_map_of_mem (f := OrderedMap.entries) hr
  rw [entries_select hw] at hm
  exact h row.entries (List.mem_filter.1 hm).1

end Table

theorem Command.applyTo_oneLine {stored : Option Table} (hw : ∀ table ∈ stored, table.WellFormed)
    (h : ∀ table ∈ stored, table.OneLine) (command : Command) :
    ∀ table ∈ command.applyTo stored, table.OneLine := by
  cases command with
  | createTable definition =>
    cases stored with
    | some table' => exact h
    | none =>
      intro table ht
      have hread : Definition.readTable definition = .ok table := by
        cases hr : Definition.readTable definition <;> simp_all [applyTo, Except.toOption]
      intro record hm
      rw [Table.records, Definition.rowCount_readTable hread] at hm
      exact absurd hm List.not_mem_nil
  | insert statement =>
    intro table ht
    rw [applyTo] at ht
    split at ht
    · exact h table ht
    · next insertion hi =>
      obtain ⟨table', ht', rfl⟩ := Option.map_eq_some_iff.1 ht
      exact Table.insert_oneLine (hw table' ht') (h table' ht') (Insertion.values_oneLine hi)
  | _ => exact h

namespace Session

/-- No text that is stored has a line feed. -/
def OneLine (session : Session) : Prop :=
  ∀ database name, ∀ table ∈ session.catalog.table? database name, table.OneLine

theorem execute_oneLine {session : Session} (hw : session.WellFormed) (h : session.OneLine)
    (command : Command) : (session.execute command).session.OneLine := by
  intro database name
  rw [table?_execute_eq]
  split
  · refine Command.applyTo_oneLine ?_ (h database name) command
    intro table ht
    obtain ⟨stored, hd, ht⟩ := Option.bind_eq_some_iff.1 ht
    have hstored := Catalog.wellFormed_of_database? hw.catalog_wellFormed hd
    exact Database.wellFormed_of_table? hstored ht
  · exact h database name

theorem run_oneLine {session : Session} (hw : session.WellFormed) (h : session.OneLine)
    (commands : List Command) : (session.run commands).OneLine := by
  induction commands generalizing session with
  | nil => exact h
  | cons command commands ih =>
    exact ih (step_wellFormed hw (execute_step session command)) (execute_oneLine hw h command)

/-! ### Responses -/

variable {session : Session} {line : String}

theorem newline_not_mem_enumerate {names : List String}
    (h : ∀ name ∈ names, Name.isValid name = true) {ifEmpty : String} (he : '\n' ∉ ifEmpty.toList) :
    '\n' ∉ (enumerate names ifEmpty).toList := by
  rw [enumerate]
  split
  · exact he
  · exact newline_not_mem_listed fun name hn => Name.newline_not_mem (h name hn)

/-- The answers but for selections are made of names and fixed texts. -/
theorem newline_not_mem_of_effect {session' : Session} {command : Command} {text : String}
    (hw : session.WellFormed) (h : session.Effect command text session')
    (hs : ∀ query, command ≠ .select query) : '\n' ∉ text.toList := by
  have hcatalog := hw.catalog_wellFormed
  cases h with
  | createDatabase hn hnew =>
    exact newline_not_mem_append (newline_not_mem_append (by decide +kernel)
      (Name.newline_not_mem hn)) (by decide +kernel)
  | listDatabases => exact newline_not_mem_enumerate hcatalog.names_valid (by decide +kernel)
  | useDatabase hm =>
    exact newline_not_mem_append (by decide +kernel)
      (Name.newline_not_mem (hcatalog.names_valid _ hm))
  | listTables hd =>
    have hdatabase := wellFormed_of_database? hw hd
    exact newline_not_mem_enumerate hdatabase.names_valid
      (newline_not_mem_append (by decide +kernel) (Name.newline_not_mem hdatabase.name_valid))
  | createTable ha hd ht hnew =>
    have hvalid := (Definition.readTable_wellFormed ht).name_valid
    exact newline_not_mem_append (newline_not_mem_append (by decide +kernel)
      (Name.newline_not_mem hvalid)) (by decide +kernel)
  | select hd hq ht => exact absurd rfl (hs _)
  | insert ha hd hi ht =>
    have hdatabase := Catalog.wellFormed_of_database? hcatalog hd
    have hm := Database.mem_tableNames_iff.2 ⟨_, ht⟩
    exact newline_not_mem_append (by decide +kernel)
      (Name.newline_not_mem (hdatabase.names_valid _ hm))

theorem newline_not_mem_rows (hw : session.WellFormed) (h : session.OneLine) {query : String}
    {rows : List Row} (hr : session.rows? query = some rows) :
    ∀ text ∈ Row.lines rows, '\n' ∉ text.toList := by
  rw [rows?] at hr
  split at hr
  · exact absurd hr (by simp)
  · obtain ⟨table, ht, rfl⟩ := Option.map_eq_some_iff.1 hr
    obtain ⟨name, database, -, hd, htable⟩ := table?_eq_some_iff.1 ht
    have hstored : session.catalog.table? name _ = some table :=
      (Catalog.table?_of_database? hd).trans htable
    exact Table.newline_not_mem_select (wellFormed_of_table? hw ht) (h _ _ _ hstored) _

theorem exists_rows_of_effect {session' : Session} {query text : String}
    (h : session.Effect (.select query) text session') :
    ∃ rows, session.rows? query = some rows ∧ text = Row.printAll rows := by
  cases h with
  | @select _ database query' table hd hq ht =>
    refine ⟨table.select query'.condition, ?_, rfl⟩
    have htable : session.table? query'.table = some table := Option.bind_eq_some_iff.2 ⟨_, hd, ht⟩
    simp only [rows?, hq, htable, Option.map_some]

/-- The response is one line, but to a selection that succeeds: there it has the line of the column
names and a line for each row, if any row is found, parted by one line feed each. -/
structure RespondsInLines (session : Session) (line : String) : Prop where
  other : (∀ query, Command.classify line ≠ .select query) →
    '\n' ∉ (session.process line).text.toList
  failure : ∀ cause, (session.execute (Command.classify line)).answer = .error cause →
    '\n' ∉ (session.process line).text.toList
  selection : ∀ query text, Command.classify line = .select query →
    (session.execute (Command.classify line)).answer = .ok text →
      ∃ rows, session.rows? query = some rows ∧
        (session.process line).text.toList.splitOn '\n' = (Row.lines rows).map String.toList ∧
        (session.process line).text.toList.count '\n' = rows.length

theorem newline_not_mem_of_error {cause : Error}
    (ha : (session.execute (Command.classify line)).answer = .error cause)
    (hl : '\n' ∉ line.toList.dropLast) : '\n' ∉ cause.message.toList := by
  have hecho := echo_of_failure (failure_of_answer ha).1
  refine Error.newline_not_mem_message fun hm => hl ?_
  exact mem_dropLast_of_mem_trim (by decide) (Command.text_classify_subset line (hecho hm))

theorem respondsInLines (hw : session.WellFormed) (h : session.OneLine)
    (hl : '\n' ∉ line.toList.dropLast) : session.RespondsInLines line := by
  have hfailure : ∀ cause, (session.execute (Command.classify line)).answer = .error cause →
      '\n' ∉ (session.process line).text.toList := by
    intro cause ha
    rw [process, text_respond_of_error ha]
    exact newline_not_mem_of_error ha hl
  refine ⟨fun hother => ?_, hfailure, fun query text hc ha => ?_⟩
  · cases ha : (session.execute (Command.classify line)).answer with
    | error cause => exact hfailure cause ha
    | ok text =>
      rw [process, text_respond_of_ok ha]
      exact newline_not_mem_of_effect hw (effect_of_answer ha) hother
  · rw [process, text_respond_of_ok ha]
    rw [hc] at ha
    obtain ⟨rows, hrows, rfl⟩ := exists_rows_of_effect (effect_of_answer ha)
    exact ⟨rows, hrows, Row.splitOn_printAll (newline_not_mem_rows hw h hrows)⟩

theorem processing_oneLine (lines : List String) :
    (Channel.processing.run .empty lines).OneLine := by
  have h : empty.OneLine := fun _ _ _ ht => nomatch ht
  rw [Channel.run_processing]
  exact run_oneLine empty_wellFormed h _

/-- Whatever lines were run, a line with a line feed at most at its end is responded to in one line,
or in one line more than there are rows that it finds. -/
theorem process_responds_in_lines (lines : List String) {line : String}
    (hl : '\n' ∉ line.toList.dropLast) :
    (Channel.processing.run .empty lines).RespondsInLines line :=
  respondsInLines (Channel.processing_wellFormed lines) (processing_oneLine lines) hl

/-- A selection with a quote and a null in its rows, and a failure that repeats a broken name. -/
theorem process_responds_in_lines_mixed :
    let lines := ["create database d\n", "use database d\n", "create table t (n int, s varchar)\n",
      "insert into t (n, s) values (1, 'it''s')\n", "insert into t (n) values (2)\n"]
    let session := Channel.processing.run .empty lines
    session.RespondsInLines "select * from t\n" ∧
      (session.process "select * from t\n").text = "n, s\n1, 'it's'\n2, NULL" ∧
      '\n' ∉ (session.process "create database d e\n").text.toList := by
  intro lines session
  have hselect : session.RespondsInLines "select * from t\n" :=
    process_responds_in_lines lines (by decide +kernel)
  have hfail : session.RespondsInLines "create database d e\n" :=
    process_responds_in_lines lines (by decide +kernel)
  have hc : Command.classify "create database d e\n" = .createDatabase "d e" := by decide +kernel
  exact ⟨hselect, by decide +kernel, hfail.other fun query => by rw [hc]; exact nofun⟩

/-- A line feed inside of a line can be repeated. -/
example : (empty.process "use database a\nb").text = "Unknown database a\nb" := by
  decide +kernel

end Session

namespace Shell

theorem newline_not_mem_dropLast {input line : List UInt8} (h : line ∈ lines input) :
    '\n' ∉ (Utf8.decode line).toList.dropLast := by
  have hdecode : ∀ bs : List UInt8, lineFeed ∉ bs → '\n' ∉ (Utf8.decode bs).toList := by
    intro bs hbs
    rw [Utf8.decode, String.toList_ofList]
    exact Utf8.newline_not_mem_decodeFrom Utf8.isSound_none hbs
  have hcut := cut_lines input
  generalize lines input = ls at h hcut
  induction hcut with
  | nil => exact absurd h List.not_mem_nil
  | last hne hm =>
    rw [List.mem_singleton.1 h]
    exact fun hc => hdecode _ hm (List.dropLast_subset _ hc)
  | @line body rest ls hm hr ih =>
    rcases List.mem_cons.1 h with rfl | h
    · have hline : (Utf8.decode body ++ "\n").toList = (Utf8.decode body).toList ++ ['\n'] :=
        String.toList_append
      rw [decode_append_lineFeed, hline, List.dropLast_concat]
      exact hdecode _ hm
    · exact ih h

/-- Every line that a dialogue reads is responded to in lines. -/
theorem responds_in_lines {input : List UInt8} {before after : List String} {line : String}
    (h : (lines input).map Utf8.decode = before ++ line :: after) :
    (Channel.processing.run .empty before).RespondsInLines line := by
  have hm : line ∈ (lines input).map Utf8.decode :=
    h ▸ List.mem_append_right before List.mem_cons_self
  obtain ⟨bs, hbs, rfl⟩ := List.mem_map.1 hm
  exact Session.respondsInLines (Channel.processing_wellFormed before)
    (Session.processing_oneLine before) (newline_not_mem_dropLast hbs)

end Shell
end TableShell
