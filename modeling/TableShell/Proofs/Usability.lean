import Mathlib.Data.List.Nodup
import TableShell.Proofs.EnteredRows

/-
What lines can do with a table that lines created.

The naming rule admits the keywords of queries and insertions as names. A table is selected whole by
a line unless it is called `where`, and a number is entered under an integer column of it by a line
unless it is called `values`, in whatever case.
-/
namespace TableShell

open Text

namespace Session

/-- The record of a number under an integer column, null elsewhere. -/
theorem record_int {schema : Schema} (hs : (schema.map Attribute.name).Nodup) {column : String}
    (hc : ⟨column, .int⟩ ∈ schema) (n : Int64) :
    schema.record (Insertion.entered [(column, .int n)]) =
      schema.map fun a => (a.name, if a.name = column then .int n else .null) := by
  have hd : ([(column, Literal.int n)].map Prod.fst).Nodup := List.pairwise_singleton _ column
  rw [Insertion.record_entered hd]
  apply List.map_congr_left
  intro a ha
  rw [OrderedMap.lookup_cons, List.lookup_nil]
  split
  · next hname =>
    have hattribute : a = ⟨column, .int⟩ := List.inj_on_of_nodup_map hs ha hc hname
    rw [hattribute]
    exact congrArg (column, ·) (Value.coerce_display n)
  · rfl

/-- A table that lines created is selected by a line, but for its name being `where`, which leaves
the query without a table, and takes a number by a line, but for its name being `values`. -/
theorem created_table_usable (lines : List String) {table column : String} {stored : Table}
    (ht : (Channel.processing.run .empty lines).table? table = some stored)
    (hc : ⟨column, .int⟩ ∈ stored.schema) :
    let session := Channel.processing.run .empty lines
    (isPhrase "where".toList table.toList = false →
      ∃ rows : List Row, rows.map OrderedMap.entries = stored.records ∧
        (session.process ("select * from " ++ table)).text = Row.printAll rows) ∧
    (isPhrase "where".toList table.toList = true →
      (session.process ("select * from " ++ table)).text = "Select syntax invalid") ∧
    (isPhrase "values".toList table.toList = false → ∀ n : Int64,
      let inserted := session.process
        ("insert into " ++ table ++ " (" ++ column ++ ") values (" ++ (Value.int n).display ++ ")")
      inserted.text = "1 row inserted into " ++ table ∧
        ∃ grown, inserted.session.table? table = some grown ∧ grown.schema = stored.schema ∧
          grown.records = stored.records ++
            [stored.schema.map fun a => (a.name, if a.name = column then .int n else .null)]) := by
  intro session
  have hreach : session.Reachable :=
    ⟨.empty, .empty, lines.map Command.classify, Channel.run_processing .empty lines⟩
  have hs := hreach.wellFormed
  have hstored := wellFormed_of_table? hs ht
  have hvalid := isValid_of_table? hs ht
  refine ⟨?_, ?_, ?_⟩
  · intro hw
    exact ⟨stored.select none, Table.entries_select_none hstored, process_select hvalid hw ht⟩
  · exact fun hw => process_select_keyword hvalid hw ht
  · intro hk n
    have hcolumn : column ∈ stored.schema.map Attribute.name :=
      List.mem_map_of_mem (f := Attribute.name) hc
    obtain ⟨htext, hinserted⟩ := process_written hs ht hk
      (List.cons_ne_nil (column, Literal.int n) []) (List.forall_mem_singleton.2 hcolumn)
      (List.forall_mem_singleton.2 trivial)
    refine ⟨htext, _, hinserted, rfl, ?_⟩
    rw [Table.records_insert hstored, record_int hstored.names_nodup hc]

/-- Keywords as parts of names and as a column, the least number, and beside it a table that cannot
be selected. -/
theorem created_table_usable_keywords :
    let session := Channel.processing.run .empty ["create database d", "use database d",
      "create table where_values (values varchar, where int)", "create table Where (c int)"]
    (session.process "select * from where_values").text = "No rows" ∧
    (session.process "select * from Where").text = "Select syntax invalid" ∧
    (session.process "insert into where_values (where) values (-9223372036854775808)").text =
        "1 row inserted into where_values" ∧
      ∃ grown, (session.process
          "insert into where_values (where) values (-9223372036854775808)").session.table?
            "where_values" = some grown ∧
        grown.records = [[("values", .null), ("where", .int Int64.minValue)]] := by
  intro session
  have hstored : session.table? "where_values" =
      some ⟨"where_values", [⟨"values", .varchar⟩, ⟨"where", .int⟩],
        [.empty "values" .varchar, .empty "where" .int], 0⟩ := by
    decide +kernel
  have hkeyword : session.table? "Where" =
      some ⟨"Where", [⟨"c", .int⟩], [.empty "c" .int], 0⟩ := by
    decide +kernel
  obtain ⟨hselect, -, hinsert⟩ := created_table_usable _ hstored
    (List.mem_cons_of_mem _ List.mem_cons_self)
  obtain ⟨rows, hrows, htext⟩ := hselect (by decide)
  obtain ⟨hanswer, grown, hgrown, -, hrecords⟩ := hinsert (by decide) Int64.minValue
  have hfailed := (created_table_usable _ hkeyword List.mem_cons_self).2.1 (by decide)
  rw [List.map_eq_nil_iff.1 hrows] at htext
  exact ⟨htext, hfailed, hanswer, grown, hgrown, hrecords.trans (by decide +kernel)⟩

/-- A table called `where` is there and has no rows, but selecting it is answered with an error. -/
theorem where_table_not_selected :
    let session := Channel.processing.run .empty
      ["create database d", "use database d", "create table where (c int)"]
    ∃ stored, session.table? "where" = some stored ∧ ⟨"c", .int⟩ ∈ stored.schema ∧
      ¬ ∃ rows : List Row, rows.map OrderedMap.entries = stored.records ∧
        (session.process "select * from where").text = Row.printAll rows := by
  intro session
  have hstored : session.table? "where" =
      some ⟨"where", [⟨"c", .int⟩], [.empty "c" .int], 0⟩ := by
    decide +kernel
  refine ⟨_, hstored, List.mem_cons_self, ?_⟩
  intro h
  obtain ⟨rows, hrows, htext⟩ := h
  rw [List.map_eq_nil_iff.1 hrows] at htext
  exact absurd htext (by decide +kernel)

end Session
end TableShell
