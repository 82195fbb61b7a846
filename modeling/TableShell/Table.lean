import TableShell.Column
import TableShell.Row
import TableShell.Schema

/-
Tables: a name, a schema, and the cells in one vector per column. Rows can be added and never
change.
-/
namespace TableShell

/-- The one form of condition: the cell of a column meets a text. -/
structure Condition where
  column : String
  text : String
deriving DecidableEq, Repr

structure Table where
  name : String
  schema : Schema
  columns : List Column
  rowCount : Nat
deriving DecidableEq

namespace Table

/-- A table without rows. Its name is checked before its columns. -/
def create (name : String) (columns : List (String × String)) : Except Error Table :=
  match Name.check name with
  | .error e => .error e
  | .ok () =>
    match Schema.declare columns with
    | .error e => .error e
    | .ok schema => .ok ⟨name, schema, schema.map fun a => .empty a.name a.type, 0⟩

def column? (table : Table) (name : String) : Option Column :=
  table.columns.find? fun column => column.name == name

/-- Adds a row. A column takes the value given for it, null where there is none; values for
columns the table lacks are passed over. -/
def insert (table : Table) (given : OrderedMap Value) : Table :=
  { table with
    columns := table.columns.map fun column => column.push ((given.get? column.name).getD .null)
    rowCount := table.rowCount + 1 }

def row? (table : Table) (i : Nat) : Option Row :=
  if i < table.rowCount then
    (table.columns.mapM fun (column : Column) => (column.get? i).map (column.name, ·)).map .ofList
  else none

/-- Whether the row at `i` meets the condition. On a column the table lacks no row does. -/
def meets (table : Table) (i : Nat) (condition : Condition) : Bool :=
  (table.column? condition.column).any fun column => column.meets i condition.text

/-- The rows that meet the condition, all where there is none, in the order they were added. -/
def select (table : Table) (condition : Option Condition) : List Row :=
  ((List.range table.rowCount).filter fun i => condition.all (table.meets i)).filterMap table.row?

/-- The physical columns are those of the schema, in order, each as long as the table. -/
structure WellFormed (table : Table) : Prop where
  name_valid : Name.isValid table.name = true
  schema_ne_nil : table.schema ≠ []
  names_valid : ∀ a ∈ table.schema, Name.isValid a.name = true
  names_nodup : (table.schema.map Attribute.name).Nodup
  columns_eq : (table.columns.map fun column => Attribute.mk column.name column.type) = table.schema
  columns_wellFormed : ∀ column ∈ table.columns, column.WellFormed
  size_eq : ∀ column ∈ table.columns, column.size = table.rowCount

theorem schema_insert (table : Table) (given : OrderedMap Value) :
    (table.insert given).schema = table.schema := rfl

theorem rowCount_insert (table : Table) (given : OrderedMap Value) :
    (table.insert given).rowCount = table.rowCount + 1 := rfl

theorem insert_wellFormed {table : Table} (h : table.WellFormed) (given : OrderedMap Value) :
    (table.insert given).WellFormed where
  name_valid := h.name_valid
  schema_ne_nil := h.schema_ne_nil
  names_valid := h.names_valid
  names_nodup := h.names_nodup
  columns_eq := by
    rw [schema_insert, ← h.columns_eq]
    simp only [insert, List.map_map]
    rfl
  columns_wellFormed := by
    intro column hm
    obtain ⟨c, hc, rfl⟩ := List.mem_map.1 hm
    exact Column.push_wellFormed (h.columns_wellFormed c hc) _
  size_eq := by
    intro column hm
    obtain ⟨c, hc, rfl⟩ := List.mem_map.1 hm
    rw [Column.size_push, h.size_eq c hc, rowCount_insert]

end Table
end TableShell
