import TableShell.Proofs.Channels
import TableShell.Proofs.InsertionLayout
import TableShell.Proofs.Literals
import TableShell.Proofs.Persistence

/-
The lines that select a table and those that insert into it.

A line is recognised by its phrase and handed on to the reading of a query or of an insertion, so
the reply to it follows from what is read. A query for a table alone is read as such unless the
name is the keyword `where`: then nothing stands before the keyword, and there is no table.
-/
namespace TableShell

open Text

namespace Command

theorem trimmed_select {table : String} (ht : Name.isValid table = true) :
    Trimmed ("select * from " ++ table).toList := by
  obtain ⟨hne, hn⟩ := Name.isValid_iff.1 ht
  rw [String.toList_append]
  constructor
  · intro c hc
    rw [← Option.some.inj hc]
    rfl
  · intro c hc
    rw [List.getLast?_append_of_ne_nil _ hne] at hc
    exact Name.isBlank_of_isNameChar (hn c (List.mem_of_mem_getLast? hc))

theorem classify_select {table : String} (ht : Name.isValid table = true) :
    classify ("select * from " ++ table) = .select table := by
  have htaken : (forms.findSome? fun form => form ("select * from ".toList ++ table.toList)) =
      some (.select (String.ofList table.toList)) := rfl
  unfold classify
  rw [trim_eq_self (trimmed_select ht), String.toList_append, htaken, Option.getD_some,
    String.ofList_toList]

/-- An insertion is handed on with its phrase. -/
theorem classify_insert {line : String} {s : List Char} (ht : trim line.toList = line.toList)
    (hs : line.toList = "insert into ".toList ++ s) : classify line = .insert line := by
  have htaken : (forms.findSome? fun form => form ("insert into ".toList ++ s)) =
      some (.insert (String.ofList ("insert into ".toList ++ s))) := rfl
  unfold classify
  rw [ht, hs, htaken, Option.getD_some, ← hs, String.ofList_toList]

theorem classify_layout {line table : String} {columns : List String} {values : List Char}
    (hs : line.toList = Insertion.layout table columns values) : classify line = .insert line :=
  classify_insert (by rw [hs, Insertion.trim_layout]) (hs.trans rfl)

end Command

namespace Query

variable {table : String}

/-- The phrase in front of a query holds a blank, which no name does. -/
theorem strip?_name (ht : Name.isValid table = true) :
    strip? Char.toLower "select * from ".toList table.toList = none := by
  rw [Option.eq_none_iff_forall_ne_some]
  intro r h
  obtain ⟨n, hn, hs⟩ := strip?_eq_some_iff.1 h
  have hspace : ' ' ∈ n.map Char.toLower := by
    rw [hn]
    decide
  obtain ⟨c, hc, hlower⟩ := List.mem_map.1 hspace
  have hname : c ∈ table.toList := hs ▸ List.mem_append_left r hc
  exact Name.toLower_ne_space ((Name.isValid_iff.1 ht).2 c hname) hlower

theorem read_name (ht : Name.isValid table = true)
    (hw : isPhrase "where".toList table.toList = false) : read table = .ok ⟨table, none⟩ := by
  obtain ⟨hne, hn⟩ := Name.isValid_iff.1 ht
  have htrimmed := Name.trimmed_of_isNameChar hn
  have hfind : findWord? "where".toList some false table.toList = none :=
    findWord?_of_ne isWordChar_of_mem_where
      (fun c hc => Name.isWordChar_of_isNameChar (hn c hc)) (Name.map_foldCase hn hw)
  have hempty : table.toList.isEmpty = false := List.isEmpty_eq_false_iff.2 hne
  simp only [read, trimStart_eq_self htrimmed.1, strip?_name ht, Option.getD_none, hfind,
    trim_eq_self htrimmed, hempty, Bool.false_eq_true, if_false, String.ofList_toList]

/-- A name that is the keyword is read as one, and no table is left. -/
theorem read_keyword (ht : Name.isValid table = true)
    (hw : isPhrase "where".toList table.toList = true) : read table = .error .selectSyntax := by
  obtain ⟨hne, hn⟩ := Name.isValid_iff.1 ht
  have htrimmed := Name.trimmed_of_isNameChar hn
  have hkeyword := Name.map_foldCase_of_isPhrase hn hw
  have hfind : findWord? "where".toList some false table.toList = some ([], []) := by
    rw [← List.append_nil table.toList]
    exact findWord?_keyword (by decide) hkeyword rfl rfl
  simp only [read, trimStart_eq_self htrimmed.1, strip?_name ht, Option.getD_none, hfind]
  rfl

end Query

namespace Session

variable {session session' : Session} {line : String}

theorem process_of_effect {command : Command} {text : String} (hc : Command.classify line = command)
    (h : session.Effect command text session') :
    (session.process line).text = text ∧ (session.process line).session = session' := by
  obtain ⟨ha, hs⟩ := execute_of_effect h
  rw [process, hc]
  exact ⟨text_respond_of_ok ha, (session_respond session command).trans hs⟩

theorem process_insert {statement : String} (hc : Command.classify line = .insert statement)
    {insertion : Insertion} (hi : Insertion.read statement = .ok insertion) {stored : Table}
    (ht : session.table? insertion.table = some stored) :
    (session.process line).text = "1 row inserted into " ++ insertion.table ∧
      (session.process line).session.table? insertion.table =
        some (stored.insert insertion.values) := by
  obtain ⟨active, database, ha, hd, ht'⟩ := table?_eq_some_iff.1 ht
  refine ⟨(process_of_effect hc (.insert ha hd hi ht')).1, ?_⟩
  rw [process, hc, session_respond]
  exact (table?_insert hi ht).1

/-- A table with any other name than the keyword is selected whole. -/
theorem process_select {table : String} (hn : Name.isValid table = true)
    (hw : isPhrase "where".toList table.toList = false) {stored : Table}
    (ht : session.table? table = some stored) :
    (session.process ("select * from " ++ table)).text = Row.printAll (stored.select none) := by
  obtain ⟨database, hd, ht⟩ := Option.bind_eq_some_iff.1 ht
  exact (process_of_effect (Command.classify_select hn)
    (.select hd (Query.read_name hn hw) ht)).1

/-- Under the name of the keyword no table can be selected. -/
theorem process_select_keyword {table : String} (hn : Name.isValid table = true)
    (hw : isPhrase "where".toList table.toList = true) {stored : Table}
    (ht : session.table? table = some stored) :
    (session.process ("select * from " ++ table)).text = Error.selectSyntax.message := by
  obtain ⟨database, hd, -⟩ := Option.bind_eq_some_iff.1 ht
  rw [process, Command.classify_select hn]
  apply text_respond_of_error
  simp only [execute, select, hd, Query.read_keyword hn hw, fail]

end Session
end TableShell
