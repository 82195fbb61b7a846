import TableShell.Proofs.InsertionReading
import TableShell.Proofs.Literals
import TableShell.Proofs.Persistence

/-
Finding again what was stored from a literal.

An insertion keeps the field that a literal is read as. The condition that compares with the same
literal is read another way, and finds the record wherever the two ways agree.
-/
namespace TableShell

open Text

/-- The insertion has, under the column of the table, the field that the quoted text is read as. -/
structure Insertion.Gives (insertion : Insertion) (table column text : String) : Prop where
  table_eq : insertion.table = table
  get?_eq : ∃ value, Fields.split (literal text).toList = [value.toList] ∧
    insertion.values.get? column = some (.text value)

namespace Query

/-- The condition has the text of the literal exactly where the text has no quote. -/
theorem read_comparison_iff {table column text : String} (ht : Name.isValid table = true)
    (hw : isPhrase "where".toList table.toList = false) (hc : Name.isValid column = true)
    (hb : ∃ c ∈ text.toList, isBlank c = false) :
    read (comparison table column text) = .ok ⟨table, some ⟨column, trimmed text⟩⟩ ↔
      Fields.quoteChar ∉ text.toList := by
  have hne : trim text.toList ≠ [] := by
    obtain ⟨c, hm, hblank⟩ := hb
    exact List.ne_nil_of_mem (mem_trim hblank hm)
  rw [read_comparison ht hw hc, ← trimOf_doubled_iff, trimmed]
  constructor
  · intro h
    split at h
    · exact absurd h (by simp)
    · have htext := congrArg String.toList
        (Condition.mk.inj (Option.some.inj (Query.mk.inj (Except.ok.inj h)).2)).2
      rwa [String.toList_ofList, String.toList_ofList] at htext
  · intro h
    rw [h, if_neg (by simpa using hne)]

end Query

namespace Session

/-- The rows that a query selects. -/
def rows? (session : Session) (query : String) : Option (List Row) :=
  match Query.read query with
  | .error _ => none
  | .ok query => (session.table? query.table).map fun table => table.select query.condition

/-- The command for the query prints its rows, and the record is that of one of them. -/
def Finds (session : Session) (query : String) (record : Record) : Prop :=
  ∃ rows, session.rows? query = some rows ∧
    (session.execute (.select query)).answer = .ok (Row.printAll rows) ∧
      record ∈ rows.map OrderedMap.entries

theorem answer_select {session : Session} {query : String} {rows : List Row}
    (h : session.rows? query = some rows) :
    (session.execute (.select query)).answer = .ok (Row.printAll rows) := by
  rw [rows?] at h
  split at h
  · exact absurd h (by simp)
  · next q hq =>
    obtain ⟨table, ht, rfl⟩ := Option.map_eq_some_iff.1 h
    obtain ⟨database, hd, ht⟩ := Option.bind_eq_some_iff.1 ht
    exact (execute_of_effect (.select hd hq ht)).1

/-- A query finds the records of its table that its condition keeps. -/
theorem finds_iff {session : Session} (h : session.WellFormed) {text : String} {query : Query}
    (hq : Query.read text = .ok query) {table : Table}
    (ht : session.table? query.table = some table) {record : Record} :
    session.Finds text record ↔
      record ∈ table.records ∧ (query.condition.all fun c => c.keeps record) = true := by
  have hrows : session.rows? text = some (table.select query.condition) := by
    simp only [rows?, hq, ht, Option.map_some]
  have hmem : record ∈ (table.select query.condition).map OrderedMap.entries ↔
      record ∈ table.records ∧ (query.condition.all fun c => c.keeps record) = true := by
    rw [Table.entries_select (wellFormed_of_table? h ht), List.mem_filter]
  rw [← hmem]
  constructor
  · intro hfinds
    obtain ⟨rows, hr, -, hm⟩ := hfinds
    rwa [Option.some.inj (hr.symm.trans hrows)] at hm
  · intro hm
    exact ⟨_, hrows, answer_select hrows, hm⟩

section Literal

variable {table column text : String}

/-- A record with the field of a literal is found by the comparison with the same literal exactly
where the text in it has no quote. -/
theorem finds_comparison_iff (ht : Name.isValid table = true)
    (hw : isPhrase "where".toList table.toList = false) (hc : Name.isValid column = true)
    (hb : ∃ c ∈ text.toList, isBlank c = false) {session : Session} (hs : session.WellFormed)
    {stored : Table} (hstored : session.table? table = some stored)
    (hcolumn : ⟨column, .varchar⟩ ∈ stored.schema) {given : OrderedMap Value}
    (hg : given.get? column = some (.text (trimmed text)))
    (hrecord : stored.schema.record given ∈ stored.records) :
    session.Finds (Query.comparison table column text) (stored.schema.record given) ↔
      Fields.quoteChar ∉ text.toList := by
  have hkeeps : ∀ other, Condition.keeps ⟨column, other⟩ (stored.schema.record given) =
      (trimmed text == other) :=
    Condition.keeps_record (wellFormed_of_table? hs hstored).names_nodup hcolumn hg
  constructor
  · intro h
    have ⟨rows, hrows, _, _⟩ := h
    have hread := Query.read_comparison ht hw hc text
    split at hread
    · rw [rows?, hread] at hrows
      exact absurd hrows (by simp)
    · have hk := ((finds_iff hs hread hstored).1 h).2
      rw [Option.all_some, hkeeps, beq_iff_eq, trimmed] at hk
      have htext := congrArg String.toList hk
      rw [String.toList_ofList, String.toList_ofList] at htext
      exact Query.trimOf_doubled_iff.1 htext.symm
  · intro hq
    have hread := (Query.read_comparison_iff ht hw hc hb).2 hq
    rw [finds_iff hs hread hstored]
    exact ⟨hrecord, by rw [Option.all_some, hkeeps, beq_self_eq_true]⟩

/-- A comparison reads a literal as an insertion does, and finds from then on what an insertion
stored from it, exactly where the text in the literal has no quote. -/
theorem literal_found_iff (ht : Name.isValid table = true)
    (hw : isPhrase "where".toList table.toList = false) (hc : Name.isValid column = true)
    (hb : ∃ c ∈ text.toList, isBlank c = false) :
    ((∃ value, Query.read (Query.comparison table column text) =
          .ok ⟨table, some ⟨column, value⟩⟩ ∧
        Fields.split (literal text).toList = [value.toList]) ↔
      Fields.quoteChar ∉ text.toList) ∧
    ∀ (session : Session) (stored : Table) (statement : String) (insertion : Insertion)
      (commands : List Command), session.Reachable → session.table? table = some stored →
      ⟨column, .varchar⟩ ∈ stored.schema → Insertion.read statement = .ok insertion →
      insertion.Gives table column text →
      let later := (session.execute (.insert statement)).session.run commands
      later.active = session.active →
        (later.Finds (Query.comparison table column text)
            (stored.schema.record insertion.values) ↔
          Fields.quoteChar ∉ text.toList) := by
  constructor
  · rw [← Query.read_comparison_iff ht hw hc hb]
    constructor
    · intro h
      obtain ⟨value, hr, hf⟩ := h
      rw [split_literal, List.singleton_inj] at hf
      rw [hr, trimmed, hf, String.ofList_toList]
    · intro hr
      exact ⟨trimmed text, hr, by rw [split_literal, trimmed, String.toList_ofList]⟩
  · intro session stored statement insertion commands hreach hstored hcolumn hi hgives later ha
    have hs := hreach.wellFormed
    obtain ⟨rfl, value, hf, hg⟩ := hgives
    rw [split_literal, List.singleton_inj] at hf
    rw [show value = trimmed text by rw [trimmed, hf, String.ofList_toList]] at hg
    obtain ⟨stored', hstored', hschema, hrecord⟩ :=
      record_mem_of_insert hs hi hstored commands ha
    have hlater : later.WellFormed :=
      run_wellFormed (step_wellFormed hs (execute_step session (.insert statement))) commands
    rw [← hschema] at hcolumn hrecord ⊢
    exact finds_comparison_iff ht hw hc hb hlater hstored' hcolumn hg hrecord

end Literal

/-- An equals sign, a comma and blanks at the ends, with another database used in between. -/
theorem literal_found_unquoted :
    let session := (start .empty).run
      [.createDatabase "d", .useDatabase "d", .createTable "t (n int, c varchar)"]
    let statement := "insert into t (c, n) values (\x27 a, b = c \x27, 7)"
    let later := (session.execute (.insert statement)).session.run
      [.createDatabase "e", .useDatabase "e", .select "t", .useDatabase "d",
        .insert "insert into t (n) values (1)"]
    Query.read (Query.comparison "t" "c" " a, b = c ") =
        .ok ⟨"t", some ⟨"c", "a, b = c"⟩⟩ ∧
      later.Finds (Query.comparison "t" "c" " a, b = c ")
        [("n", .int 7), ("c", .text "a, b = c")] := by
  intro session statement later
  have hfound := @literal_found_iff "t" "c" " a, b = c " (by decide) (by decide) (by decide)
    ⟨'a', by decide, by decide⟩
  have hq : Fields.quoteChar ∉ " a, b = c ".toList := by decide
  have hi : Insertion.read statement =
      .ok ⟨"t", .ofList [("c", .text "a, b = c"), ("n", .text "7")]⟩ := by
    decide +kernel
  have hgives : Insertion.Gives ⟨"t", .ofList [("c", .text "a, b = c"), ("n", .text "7")]⟩
      "t" "c" " a, b = c " :=
    ⟨rfl, "a, b = c", by decide +kernel, by decide +kernel⟩
  have hstored : session.table? "t" = some ⟨"t", [⟨"n", .int⟩, ⟨"c", .varchar⟩],
      [.empty "n" .int, .empty "c" .varchar], 0⟩ := by
    decide +kernel
  obtain ⟨value, hr, hf⟩ := hfound.1.2 hq
  rw [split_literal, List.singleton_inj] at hf
  refine ⟨?_, (hfound.2 session _ statement _ _ ⟨.empty, .empty, _, rfl⟩ hstored (by decide) hi
    hgives (by decide +kernel)).2 hq⟩
  rw [hr, ← String.ofList_toList (s := value), ← hf]
  decide +kernel

/-- An insertion halves the doubled quote of a literal where the comparison does not, so a text with
an apostrophe is stored and not found. -/
theorem literal_not_found_quoted :
    (¬ ∃ value, Query.read (Query.comparison "t" "c" "it\x27s") =
          .ok ⟨"t", some ⟨"c", value⟩⟩ ∧
        Fields.split (literal "it\x27s").toList = [value.toList]) ∧
      let session := (start .empty).run
        [.createDatabase "d", .useDatabase "d", .createTable "t (c varchar)",
          .insert (Insertion.statement "t" [("c", "it\x27s")])]
      (session.execute (.select "t")).answer = .ok "c\n\x27it\x27s\x27" ∧
        (session.execute (.select (Query.comparison "t" "c" "it\x27s"))).answer =
          .ok "No rows" := by
  refine ⟨?_, by decide +kernel⟩
  intro h
  obtain ⟨value, hr, hf⟩ := h
  have hread : Query.read (Query.comparison "t" "c" "it\x27s") =
      .ok ⟨"t", some ⟨"c", "it\x27\x27s"⟩⟩ := by
    decide +kernel
  cases hread.symm.trans hr
  exact absurd hf (by decide +kernel)

end Session
end TableShell
