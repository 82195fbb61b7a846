import TableShell.Proofs.Declarations
import TableShell.Proofs.Records

/-
Tables from their creation on: what a created table is, and what insertions make of it.
-/
namespace TableShell

namespace Table

theorem create_eq_ok {name : String} {columns : List (String × String)} {table : Table}
    (h : create name columns = .ok table) : Name.isValid name = true ∧ columns ≠ [] ∧
      ∃ schema, table = ⟨name, schema, schema.map fun a => .empty a.name a.type, 0⟩ := by
  cases h ▸ judged_create name columns with
  | created hname hne _ _ => exact ⟨hname, hne, _, rfl⟩

theorem create_wellFormed {name : String} {columns : List (String × String)} {table : Table}
    (h : create name columns = .ok table) : table.WellFormed := by
  cases h ▸ judged_create name columns with
  | @created hname hne hcolumns schema hschema =>
    have hnames : schema.map Attribute.name = (OrderedMap.ofList columns).keys := by
      rw [Schema.names_of_declaredBy hschema, ← OrderedMap.entries_ofList_eq_settled,
        OrderedMap.keys]
    refine ⟨hname, ?_, ?_, ?_, ?_, ?_, ?_⟩
    · rintro rfl
      exact hne (OrderedMap.settled_eq_nil_iff.1 (List.forall₂_nil_right_iff.1 hschema))
    · intro a ha
      obtain ⟨entry, hm, hdeclared, -⟩ := exists_mem_of_forall₂ hschema.flip ha
      exact hdeclared ▸ hcolumns entry hm
    · rw [hnames]
      exact (OrderedMap.ofList columns).nodup
    · rw [List.map_map]
      exact List.map_id' schema
    · intro column hm
      obtain ⟨a, -, rfl⟩ := List.mem_map.1 hm
      exact Column.empty_wellFormed a.name a.type
    · intro column hm
      obtain ⟨a, -, rfl⟩ := List.mem_map.1 hm
      rfl

theorem records_create {name : String} {columns : List (String × String)} {table : Table}
    (h : create name columns = .ok table) : table.records = [] := by
  obtain ⟨-, -, schema, rfl⟩ := create_eq_ok h
  rfl

/-- Adds rows one after the other. -/
def insertAll (table : Table) (givens : List (OrderedMap Value)) : Table :=
  givens.foldl insert table

theorem name_insertAll (table : Table) (givens : List (OrderedMap Value)) :
    (table.insertAll givens).name = table.name := by
  induction givens generalizing table with
  | nil => rfl
  | cons given givens ih => exact ih (table.insert given)

theorem schema_insertAll (table : Table) (givens : List (OrderedMap Value)) :
    (table.insertAll givens).schema = table.schema := by
  induction givens generalizing table with
  | nil => rfl
  | cons given givens ih => exact ih (table.insert given)

theorem insertAll_wellFormed {table : Table} (h : table.WellFormed)
    (givens : List (OrderedMap Value)) : (table.insertAll givens).WellFormed := by
  induction givens generalizing table with
  | nil => exact h
  | cons given givens ih => exact ih (insert_wellFormed h given)

/-- A run of insertions adds the records of what was given, in order. -/
theorem records_insertAll {table : Table} (h : table.WellFormed)
    (givens : List (OrderedMap Value)) :
    (table.insertAll givens).records = table.records ++ givens.map table.schema.record := by
  induction givens generalizing table with
  | nil => rw [List.map_nil, List.append_nil, insertAll, List.foldl_nil]
  | cons given givens ih =>
    rw [insertAll, List.foldl_cons, ← insertAll, ih (insert_wellFormed h given),
      records_insert h, schema_insert, List.append_assoc, List.map_cons, List.singleton_append]

/-- A table is the list of the records inserted since its creation: it counts them, has each at its
place and none behind the last, and selects exactly those that the condition keeps. -/
theorem insertAll_refines_records {name : String} {columns : List (String × String)}
    {table : Table} (h : create name columns = .ok table) (givens : List (OrderedMap Value)) :
    let grown := table.insertAll givens
    let records := givens.map table.schema.record
    grown.rowCount = givens.length ∧
      (∀ i, (grown.row? i).map OrderedMap.entries = records[i]?) ∧
      ∀ condition : Option Condition, (grown.select condition).map OrderedMap.entries =
        records.filter fun record => condition.all fun c => c.keeps record := by
  intro grown records
  have hw : grown.WellFormed := insertAll_wellFormed (create_wellFormed h) givens
  have hr : grown.records = records := by
    rw [records_insertAll (create_wellFormed h), records_create h, List.nil_append]
  refine ⟨?_, ?_, ?_⟩
  · rw [← length_records, hr, List.length_map]
  · intro i
    rw [entries_row? hw, hr]
  · intro condition
    rw [entries_select hw, hr]

/-- Two rows, the first with a value too many and each with one missing. -/
theorem insertAll_refines_records_mixed :
    ∃ table, create "t" [("n", "int"), ("s", "varchar")] = .ok table ∧
      let grown := table.insertAll
        [.ofList [("x", .int 1), ("n", .text "1e3")], .ofList [("s", .int 7)]]
      grown.rowCount = 2 ∧
        (grown.row? 1).map OrderedMap.entries = some [("n", .null), ("s", .text "7")] ∧
        (grown.row? 2).map OrderedMap.entries = none ∧
        (grown.select (some ⟨"n", "1000"⟩)).map OrderedMap.entries =
          [[("n", .int 1000), ("s", .null)]] := by
  refine ⟨_, rfl, ?_⟩
  obtain ⟨hcount, hrow, hselect⟩ := insertAll_refines_records
    (show create "t" [("n", "int"), ("s", "varchar")] = .ok _ from rfl)
    [.ofList [("x", .int 1), ("n", .text "1e3")], .ofList [("s", .int 7)]]
  exact ⟨hcount, (hrow 1).trans (by decide +kernel), (hrow 2).trans (by decide +kernel),
    (hselect (some ⟨"n", "1000"⟩)).trans (by decide +kernel)⟩

end Table
end TableShell
