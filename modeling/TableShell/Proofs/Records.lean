import Mathlib.Data.List.Basic
import TableShell.Table
import TableShell.Proofs.Entries

/-
The rows of a table, seen as one list.

A table keeps its cells by column. `Table.records` turns them round into the list of rows that the
table stands for: creation gives the empty list, an insertion adds one record at its end, and the
rows and the selections are read off it.
-/
namespace TableShell

/-- The cells of a row, each under the name of its column. -/
abbrev Record := List (String × Value)

/-- What a table of the schema keeps of given values: for each attribute its value converted to
the type, null where none is given. -/
def Schema.record (schema : Schema) (given : OrderedMap Value) : Record :=
  schema.map fun a => (a.name, ((given.get? a.name).map fun v => v.coerce a.type).getD .null)

/-- The cell that a record has under an attribute of the schema. -/
theorem Schema.lookup_record {schema : Schema} (hn : (schema.map Attribute.name).Nodup)
    {column : String} {type : DataType} (hm : ⟨column, type⟩ ∈ schema)
    (given : OrderedMap Value) :
    (schema.record given).lookup column =
      some (((given.get? column).map fun v => v.coerce type).getD .null) := by
  induction schema with
  | nil => exact absurd hm List.not_mem_nil
  | cons a schema ih =>
    rw [List.map_cons, List.nodup_cons] at hn
    rw [record, List.map_cons, OrderedMap.lookup_cons]
    rcases List.mem_cons.1 hm with rfl | hm
    · rw [if_pos rfl]
    · have hname : column ∈ schema.map Attribute.name :=
        List.mem_map_of_mem (f := Attribute.name) hm
      have hne : column ≠ a.name := fun h => hn.1 (h ▸ hname)
      rw [if_neg hne]
      exact ih hn.2 hm

/-- The record has a cell under the condition's column, and the cell meets the text. -/
def Condition.keeps (condition : Condition) (record : Record) : Bool :=
  (record.lookup condition.column).any fun v => v.looselyEquals condition.text

/-- What is stored of a given value is compared. -/
theorem Condition.keeps_record {schema : Schema} (hn : (schema.map Attribute.name).Nodup)
    {column : String} {type : DataType} (hm : ⟨column, type⟩ ∈ schema)
    {given : OrderedMap Value} {value : Value} (hg : given.get? column = some value)
    (text : String) :
    keeps ⟨column, text⟩ (schema.record given) = (value.coerce type).looselyEquals text := by
  rw [keeps, Schema.lookup_record hn hm, hg, Option.map_some, Option.getD_some, Option.any_some]

namespace Cells

theorem isSome_get? {cells : Cells} {i : Nat} (h : i < cells.size) :
    (cells.get? i).isSome = true := by
  cases cells with
  | ints ws => rw [get?, Option.isSome_map, Array.getElem?_eq_getElem h, Option.isSome_some]
  | texts ts => rw [get?, Option.isSome_map, Array.getElem?_eq_getElem h, Option.isSome_some]

theorem get?_push_size {cells : Cells} {v : Value} {t : DataType} (h : cells.HasType t)
    (hv : v.type? = some t) : (cells.push v).get? cells.size = some v := by
  cases cells <;> cases v <;> simp_all [HasType, Value.type?, push, get?, size]

end Cells

namespace Column

/-- The vector reaches as far as the marks do. -/
theorem isSome_get? {column : Column} (h : column.WellFormed) {i : Nat} (hi : i < column.size) :
    (column.get? i).isSome = true := by
  rw [get?, Array.getElem?_eq_getElem hi, Option.bind_some]
  split
  · rfl
  · exact Cells.isSome_get? (h.size_eq ▸ hi)

theorem get?_push_of_lt {column : Column} (h : column.WellFormed) {i : Nat} (hi : i < column.size)
    (value : Value) : (column.push value).get? i = column.get? i := by
  have hne : i ≠ column.nulls.size := Nat.ne_of_lt hi
  simp only [get?, push, Array.getElem?_push, hne, if_false]
  rw [Cells.get?_push_of_lt (h.size_eq ▸ hi)]

theorem get?_push_size {column : Column} (h : column.WellFormed) (value : Value) :
    (column.push value).get? column.size = some (value.coerce column.type) := by
  have hn : (column.push value).nulls[column.size]? =
      some (value.coerce column.type).isNull := by
    simp only [push, size, Array.getElem?_push, if_true]
  rw [get?, hn, Option.bind_some]
  rcases Value.coerce_hasType value column.type with hv | hv
  · rw [hv]
    rfl
  · have hne : (value.coerce column.type).isNull = false := by
      cases hc : value.coerce column.type <;> simp_all [Value.isNull, Value.type?]
    rw [hne, if_neg (by decide), ← h.size_eq]
    exact Cells.get?_push_size h.hasType hv

end Column

namespace Table

/-- The cells at a place of every column. -/
def recordAt (table : Table) (i : Nat) : Record :=
  table.columns.map fun column => (column.name, (column.get? i).getD .null)

def records (table : Table) : List Record :=
  (List.range table.rowCount).map table.recordAt

theorem length_records (table : Table) : table.records.length = table.rowCount := by
  rw [records, List.length_map, List.length_range]

theorem getElem?_records (table : Table) (i : Nat) :
    table.records[i]? = if i < table.rowCount then some (table.recordAt i) else none := by
  rw [records, List.getElem?_map]
  split
  · next h => rw [List.getElem?_range h, Option.map_some]
  · next h => rw [List.getElem?_eq_none (by simpa using h), Option.map_none]

theorem keys_recordAt {table : Table} (h : table.WellFormed) (i : Nat) :
    (table.recordAt i).map Prod.fst = table.schema.map Attribute.name := by
  rw [recordAt, ← h.columns_eq, List.map_map, List.map_map]
  rfl

/-- Each column contributes its new cell, and keeps the cells it had. -/
theorem records_insert {table : Table} (h : table.WellFormed) (given : OrderedMap Value) :
    (table.insert given).records = table.records ++ [table.schema.record given] := by
  have hold : ∀ i ∈ List.range table.rowCount,
      (table.insert given).recordAt i = table.recordAt i := by
    intro i hi
    simp only [recordAt, insert, List.map_map]
    apply List.map_congr_left
    intro column hc
    have hi' : i < column.size := h.size_eq column hc ▸ List.mem_range.1 hi
    simp only [Function.comp_apply,
      Column.get?_push_of_lt (h.columns_wellFormed column hc) hi']
    rfl
  have hnew : (table.insert given).recordAt table.rowCount = table.schema.record given := by
    simp only [recordAt, insert, Schema.record, ← h.columns_eq, List.map_map]
    apply List.map_congr_left
    intro column hc
    have hg := Column.get?_push_size (h.columns_wellFormed column hc)
      ((given.get? column.name).getD .null)
    rw [h.size_eq column hc] at hg
    simp only [Function.comp_apply, hg, Option.getD_some]
    cases given.get? column.name <;> rfl
  rw [records, rowCount_insert, List.range_succ, List.map_append, List.map_congr_left hold,
    List.map_singleton, hnew, records]

theorem mapM_eq_some_map {α β : Type} {f : α → Option β} {g : α → β} {l : List α}
    (h : ∀ a ∈ l, f a = some (g a)) : l.mapM f = some (l.map g) := by
  induction l with
  | nil => rfl
  | cons a l ih =>
    rw [List.mapM_cons, h a List.mem_cons_self, ih fun b hb => h b (List.mem_cons_of_mem a hb)]
    rfl

theorem row?_of_lt {table : Table} (h : table.WellFormed) {i : Nat} (hi : i < table.rowCount) :
    table.row? i = some (.ofList (table.recordAt i)) := by
  rw [row?, if_pos hi, mapM_eq_some_map (g := fun c => (c.name, (c.get? i).getD .null))]
  · rfl
  · intro column hc
    have hs := Column.isSome_get? (h.columns_wellFormed column hc) (h.size_eq column hc ▸ hi)
    obtain ⟨v, hv⟩ := Option.isSome_iff_exists.1 hs
    rw [hv]
    rfl

theorem entries_ofList_recordAt {table : Table} (h : table.WellFormed) (i : Nat) :
    (OrderedMap.ofList (table.recordAt i)).entries = table.recordAt i := by
  apply OrderedMap.entries_ofList
  rw [keys_recordAt h]
  exact h.names_nodup

/-- A row is there exactly where its record is, and has its cells. -/
theorem entries_row? {table : Table} (h : table.WellFormed) (i : Nat) :
    (table.row? i).map OrderedMap.entries = table.records[i]? := by
  rw [getElem?_records]
  split
  · next hi => rw [row?_of_lt h hi, Option.map_some, entries_ofList_recordAt h]
  · next hi => rw [row?, if_neg hi, Option.map_none]

theorem lookup_recordAt (table : Table) (i : Nat) (name : String) :
    (table.recordAt i).lookup name =
      (table.column? name).map fun column => (column.get? i).getD .null := by
  rw [recordAt, column?]
  induction table.columns with
  | nil => rfl
  | cons column columns ih =>
    rw [List.map_cons, OrderedMap.lookup_cons, List.find?_cons, ih]
    by_cases hn : name = column.name
    · rw [if_pos hn, hn, beq_self_eq_true]
      rfl
    · rw [if_neg hn, beq_eq_false_iff_ne.2 (Ne.symm hn)]

/-- The filter, which runs on one column, keeps the records that the condition keeps. -/
theorem meets_eq_keeps (table : Table) (i : Nat) (condition : Condition) :
    table.meets i condition = condition.keeps (table.recordAt i) := by
  rw [meets, Condition.keeps, lookup_recordAt, Option.any_map]
  congr 1
  funext column
  rw [Column.meets]
  cases column.get? i <;> rfl

theorem entries_select {table : Table} (h : table.WellFormed) (condition : Option Condition) :
    (table.select condition).map OrderedMap.entries =
      table.records.filter fun record => condition.all fun c => c.keeps record := by
  have hf : ∀ i, (condition.all fun c => c.keeps (table.recordAt i)) =
      condition.all (table.meets i) := by
    intro i
    simp only [← meets_eq_keeps]
  have hr : ∀ i ∈ (List.range table.rowCount).filter (fun i => condition.all (table.meets i)),
      (table.row? i).map OrderedMap.entries = some (table.recordAt i) := by
    intro i hi
    have hi' : i < table.rowCount := List.mem_range.1 (List.mem_filter.1 hi).1
    rw [entries_row? h, getElem?_records, if_pos hi']
  rw [select, List.map_filterMap, List.filterMap_eq_map_iff_forall_eq_some.2 hr, records,
    List.filter_map]
  simp only [Function.comp_def, hf]

/-- Without a condition every record is selected. -/
theorem entries_select_none {table : Table} (h : table.WellFormed) :
    (table.select none).map OrderedMap.entries = table.records := by
  simp only [entries_select h, Option.all_none, List.filter_true]

end Table
end TableShell
