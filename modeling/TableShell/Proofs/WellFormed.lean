import TableShell.Catalog
import TableShell.Proofs.Growth

/-
Well-formed catalogs, and the catalogs that the operations on tables, databases and catalogs build.

In a well-formed catalog each database and each table stands under its own name, names are valid and
distinct, and every table is well-formed. What is read out of such a table fits its schema.
-/
namespace TableShell

namespace Row

/-- The columns of the schema in its order, each with null or a value of its type. -/
def Fits (row : Row) (schema : Schema) : Prop :=
  List.Forall₂ (fun a (e : String × Value) => e.1 = a.name ∧ e.2.HasType a.type) schema row.entries

theorem keys_of_fits {row : Row} {schema : Schema} (h : row.Fits schema) :
    row.keys = schema.map Attribute.name := by
  rw [OrderedMap.keys, ← List.forall₂_eq_eq_eq, List.forall₂_map_left_iff,
    List.forall₂_map_right_iff]
  exact h.flip.imp fun _ _ he => he.1

end Row

namespace Cells

theorem type?_of_get? {cells : Cells} {t : DataType} (h : cells.HasType t) {i : Nat} {v : Value}
    (hv : cells.get? i = some v) : v.type? = some t := by
  cases cells with
  | ints ws =>
    obtain ⟨n, -, rfl⟩ := Option.map_eq_some_iff.1 hv
    rw [show t = .int from h, Value.type?]
  | texts ts =>
    obtain ⟨s, -, rfl⟩ := Option.map_eq_some_iff.1 hv
    rw [show t = .varchar from h, Value.type?]

end Cells

namespace Column

theorem get?_hasType {column : Column} (h : column.WellFormed) {i : Nat} {v : Value}
    (hv : column.get? i = some v) : v.HasType column.type := by
  obtain ⟨null, -, hv⟩ := Option.bind_eq_some_iff.1 hv
  cases null with
  | true => exact Or.inl (Option.some.inj hv).symm
  | false => exact Or.inr (Cells.type?_of_get? h.hasType hv)

end Column

namespace Table

theorem fits_of_mem_select {table : Table} (h : table.WellFormed) {condition : Option Condition}
    {row : Row} (hr : row ∈ table.select condition) : row.Fits table.schema := by
  have he : row.entries ∈ table.records := by
    have hm := List.mem_map_of_mem (f := OrderedMap.entries) hr
    rw [entries_select h] at hm
    exact (List.mem_filter.1 hm).1
  obtain ⟨i, -, hi⟩ := List.mem_map.1 he
  rw [Row.Fits, ← hi, recordAt, ← h.columns_eq, List.forall₂_map_left_iff,
    List.forall₂_map_right_iff, List.forall₂_same]
  intro column hc
  refine ⟨rfl, ?_⟩
  cases hv : column.get? i with
  | none => exact Or.inl rfl
  | some v => exact Column.get?_hasType (h.columns_wellFormed column hc) hv

/-- Tables as they can be built: created, then grown by rows. -/
inductive Built : Table → Prop
  | create {name : String} {columns : List (String × String)} {table : Table}
      (h : Table.create name columns = .ok table) : Built table
  | insert {table : Table} (h : Built table) (given : OrderedMap Value) : Built (table.insert given)

theorem Built.wellFormed {table : Table} (h : table.Built) : table.WellFormed := by
  induction h with
  | create h => exact create_wellFormed h
  | insert _ given ih => exact insert_wellFormed ih given

end Table

namespace Database

/-- Tables stand under their own names, which are valid and distinct. -/
structure WellFormed (database : Database) : Prop where
  name_valid : Name.isValid database.name = true
  names_nodup : database.tableNames.Nodup
  names_valid : ∀ name ∈ database.tableNames, Name.isValid name = true
  tables_keyed : database.tables.Keyed Table.name Table.WellFormed

theorem wellFormed_of_keyed {database : Database} (hn : Name.isValid database.name = true)
    (h : database.tables.Keyed Table.name Table.WellFormed) : database.WellFormed :=
  ⟨hn, database.tables.nodup, OrderedMap.keyed_keys h fun _ ht => ht.name_valid, h⟩

theorem wellFormed_of_table? {database : Database} (h : database.WellFormed) {name : String}
    {table : Table} (ht : database.table? name = some table) : table.WellFormed :=
  (OrderedMap.keyed_get? h.tables_keyed ht).2

theorem mem_tableNames_iff {database : Database} {name : String} :
    name ∈ database.tableNames ↔ ∃ table, database.table? name = some table := by
  rw [tableNames, ← OrderedMap.contains_iff, OrderedMap.contains, Option.isSome_iff_exists]
  rfl

theorem create_eq_ok {name : String} {database : Database} (h : create name = .ok database) :
    Name.isValid name = true ∧ database = ⟨name, .empty⟩ := by
  rw [create] at h
  split at h
  · exact absurd h (by simp)
  · next hn => exact ⟨Name.check_eq_ok_iff.1 hn, (Except.ok.inj h).symm⟩

theorem create_of_isValid {name : String} (h : Name.isValid name = true) :
    create name = .ok ⟨name, .empty⟩ := by
  rw [create, Name.check_eq_ok_iff.2 h]

theorem create_wellFormed {name : String} {database : Database} (h : create name = .ok database) :
    database.WellFormed := by
  obtain ⟨hn, rfl⟩ := create_eq_ok h
  exact wellFormed_of_keyed hn OrderedMap.keyed_empty

theorem addTable_eq_ok {database changed : Database} {table : Table}
    (h : database.addTable table = .ok changed) :
    table.name ∉ database.tableNames ∧
      changed = { database with tables := database.tables.insert table.name table } := by
  rw [addTable] at h
  split at h
  · exact absurd h (by simp)
  · next hc => exact ⟨fun hm => hc (OrderedMap.contains_iff.2 hm), (Except.ok.inj h).symm⟩

theorem addTable_of_not_mem {database : Database} {table : Table}
    (h : table.name ∉ database.tableNames) : database.addTable table =
      .ok { database with tables := database.tables.insert table.name table } := by
  rw [addTable, if_neg fun hc => h (OrderedMap.contains_iff.1 hc)]

theorem addTable_wellFormed {database changed : Database} {table : Table} (hd : database.WellFormed)
    (ht : table.WellFormed) (h : database.addTable table = .ok changed) :
    changed.WellFormed ∧ changed.name = database.name := by
  obtain ⟨-, rfl⟩ := addTable_eq_ok h
  exact ⟨wellFormed_of_keyed hd.name_valid (OrderedMap.keyed_insert hd.tables_keyed ht), rfl⟩

theorem insertRow_wellFormed {database : Database} (h : database.WellFormed) (name : String)
    (given : OrderedMap Value) :
    (database.insertRow name given).WellFormed ∧
      (database.insertRow name given).name = database.name := by
  refine ⟨wellFormed_of_keyed h.name_valid (OrderedMap.keyed_modify h.tables_keyed ?_), rfl⟩
  intro table ht
  exact ⟨Table.insert_wellFormed (wellFormed_of_table? h ht) given, rfl⟩

/-- Databases as they can be built: created, then grown by tables and by rows. -/
inductive Built : Database → Prop
  | create {name : String} {database : Database} (h : Database.create name = .ok database) :
      Built database
  | addTable {database changed : Database} {table : Table} (hd : Built database)
      (ht : table.Built) (h : database.addTable table = .ok changed) : Built changed
  | insertRow {database : Database} (hd : Built database) (table : String)
      (given : OrderedMap Value) : Built (database.insertRow table given)

theorem Built.wellFormed {database : Database} (h : database.Built) : database.WellFormed := by
  induction h with
  | create h => exact create_wellFormed h
  | addTable _ ht h ih => exact (addTable_wellFormed ih ht.wellFormed h).1
  | insertRow _ table given ih => exact (insertRow_wellFormed ih table given).1

end Database

namespace Catalog

/-- Databases stand under their own names, which are valid and distinct. -/
structure WellFormed (catalog : Catalog) : Prop where
  names_nodup : catalog.databaseNames.Nodup
  names_valid : ∀ name ∈ catalog.databaseNames, Name.isValid name = true
  databases_keyed : catalog.databases.Keyed Database.name Database.WellFormed

theorem wellFormed_of_keyed {catalog : Catalog}
    (h : catalog.databases.Keyed Database.name Database.WellFormed) : catalog.WellFormed :=
  ⟨catalog.databases.nodup, OrderedMap.keyed_keys h fun _ hd => hd.name_valid, h⟩

theorem wellFormed_of_database? {catalog : Catalog} (h : catalog.WellFormed) {name : String}
    {database : Database} (hd : catalog.database? name = some database) : database.WellFormed :=
  (OrderedMap.keyed_get? h.databases_keyed hd).2

theorem addDatabase_eq_ok {catalog changed : Catalog} {database : Database}
    (h : catalog.addDatabase database = .ok changed) :
    database.name ∉ catalog.databaseNames ∧
      changed = ⟨catalog.databases.insert database.name database⟩ := by
  rw [addDatabase] at h
  split at h
  · exact absurd h (by simp)
  · next hc => exact ⟨fun hm => hc (OrderedMap.contains_iff.2 hm), (Except.ok.inj h).symm⟩

theorem addDatabase_of_not_mem {catalog : Catalog} {database : Database}
    (h : database.name ∉ catalog.databaseNames) : catalog.addDatabase database =
      .ok ⟨catalog.databases.insert database.name database⟩ := by
  rw [addDatabase, if_neg fun hc => h (OrderedMap.contains_iff.1 hc)]

theorem mem_databaseNames_iff {catalog : Catalog} {name : String} :
    name ∈ catalog.databaseNames ↔ ∃ database, catalog.database? name = some database := by
  rw [databaseNames, ← OrderedMap.contains_iff, OrderedMap.contains, Option.isSome_iff_exists]
  rfl

theorem addDatabase_wellFormed {catalog changed : Catalog} {database : Database}
    (hc : catalog.WellFormed) (hd : database.WellFormed)
    (h : catalog.addDatabase database = .ok changed) : changed.WellFormed := by
  obtain ⟨-, rfl⟩ := addDatabase_eq_ok h
  exact wellFormed_of_keyed (OrderedMap.keyed_insert hc.databases_keyed hd)

theorem change_addTable_wellFormed {catalog : Catalog} (hc : catalog.WellFormed) {name : String}
    {database changed : Database} (hd : catalog.database? name = some database) {table : Table}
    (ht : table.WellFormed) (h : database.addTable table = .ok changed) :
    (catalog.change name fun _ => changed).WellFormed := by
  refine wellFormed_of_keyed (OrderedMap.keyed_modify hc.databases_keyed ?_)
  intro database' hd'
  rw [Option.some.inj (hd'.symm.trans hd)]
  exact Database.addTable_wellFormed (wellFormed_of_database? hc hd) ht h

theorem change_insertRow_wellFormed {catalog : Catalog} (hc : catalog.WellFormed)
    (name table : String) (given : OrderedMap Value) :
    (catalog.change name (·.insertRow table given)).WellFormed := by
  refine wellFormed_of_keyed (OrderedMap.keyed_modify hc.databases_keyed ?_)
  intro database hd
  exact Database.insertRow_wellFormed (wellFormed_of_database? hc hd) table given

/-- Catalogs as they can be built: from the empty one by databases, and by tables and rows in the
databases they hold. -/
inductive Built : Catalog → Prop
  | empty : Built .empty
  | addDatabase {catalog changed : Catalog} {database : Database} (hc : Built catalog)
      (hd : database.Built) (h : catalog.addDatabase database = .ok changed) : Built changed
  | addTable {catalog : Catalog} {name : String} {database changed : Database} {table : Table}
      (hc : Built catalog) (hd : catalog.database? name = some database) (ht : table.Built)
      (h : database.addTable table = .ok changed) : Built (catalog.change name fun _ => changed)
  | insertRow {catalog : Catalog} (hc : Built catalog) (name table : String)
      (given : OrderedMap Value) : Built (catalog.change name (·.insertRow table given))

theorem Built.wellFormed {catalog : Catalog} (h : catalog.Built) : catalog.WellFormed := by
  induction h with
  | empty => exact wellFormed_of_keyed OrderedMap.keyed_empty
  | addDatabase _ hd h ih => exact addDatabase_wellFormed ih hd.wellFormed h
  | addTable _ hd ht h ih => exact change_addTable_wellFormed ih hd ht.wellFormed h
  | insertRow _ name table given ih => exact change_insertRow_wellFormed ih name table given

theorem databaseNames_change (catalog : Catalog) (name : String) (f : Database → Database) :
    (catalog.change name f).databaseNames = catalog.databaseNames :=
  OrderedMap.keys_modify catalog.databases name f

end Catalog
end TableShell
