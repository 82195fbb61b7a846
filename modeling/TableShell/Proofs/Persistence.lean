import TableShell.Proofs.Reachability

/-
What is stored stays.

Whatever commands follow, the databases and the tables of a catalog are found under their names, and
a table has its schema and its records, with further records only behind them.
-/
namespace TableShell

namespace OrderedMap

variable {α : Type} {R : α → α → Prop} {m later last : OrderedMap α}

/-- Each name leads to a value that the value before is related to. -/
def Extends (m : OrderedMap α) (R : α → α → Prop) (later : OrderedMap α) : Prop :=
  ∀ key value, m.get? key = some value → ∃ value', later.get? key = some value' ∧ R value value'

theorem extends_refl (hr : ∀ value, R value value) : m.Extends R m :=
  fun _ value h => ⟨value, h, hr value⟩

theorem extends_trans (ht : ∀ u v w, R u v → R v w → R u w) (h : m.Extends R later)
    (h' : later.Extends R last) : m.Extends R last := by
  intro key value hv
  obtain ⟨value', hv', hr⟩ := h key value hv
  obtain ⟨value'', hv'', hr'⟩ := h' key value' hv'
  exact ⟨value'', hv'', ht _ _ _ hr hr'⟩

theorem extends_insert (hr : ∀ value, R value value) {key : String} (hk : key ∉ m.keys)
    (value : α) : m.Extends R (m.insert key value) := by
  intro key' value' hv
  have hne : key' ≠ key := by
    rintro rfl
    rw [get?_eq_none_iff.2 hk] at hv
    exact absurd hv (by simp)
  exact ⟨value', by rw [get?_insert, if_neg hne, hv], hr value'⟩

theorem extends_modify (hr : ∀ value, R value value) {key : String} {f : α → α}
    (hf : ∀ value, m.get? key = some value → R value (f value)) : m.Extends R (m.modify key f) := by
  intro key' value hv
  by_cases hk : key' = key
  · subst hk
    exact ⟨f value, by rw [get?_modify, if_pos rfl, hv, Option.map_some], hf value hv⟩
  · exact ⟨value, by rw [get?_modify, if_neg hk, hv], hr value⟩

end OrderedMap

namespace Table

/-- The later table has the records of the earlier one, then perhaps more. -/
structure Extends (table later : Table) : Prop where
  schema_eq : later.schema = table.schema
  records_prefix : table.records <+: later.records

theorem extends_refl (table : Table) : table.Extends table :=
  ⟨rfl, List.prefix_refl _⟩

theorem extends_trans (table later last : Table) (h : table.Extends later)
    (h' : later.Extends last) : table.Extends last :=
  ⟨h'.schema_eq.trans h.schema_eq, h.records_prefix.trans h'.records_prefix⟩

theorem insert_extends {table : Table} (h : table.WellFormed) (given : OrderedMap Value) :
    table.Extends (table.insert given) := by
  refine ⟨schema_insert table given, ?_⟩
  rw [records_insert h]
  exact List.prefix_append _ _

end Table

namespace Database

def Extends (database later : Database) : Prop :=
  database.tables.Extends Table.Extends later.tables

theorem extends_refl (database : Database) : database.Extends database :=
  OrderedMap.extends_refl Table.extends_refl

theorem extends_trans (database later last : Database) (h : database.Extends later)
    (h' : later.Extends last) : database.Extends last :=
  OrderedMap.extends_trans Table.extends_trans h h'

theorem addTable_extends {database changed : Database} {table : Table}
    (h : database.addTable table = .ok changed) : database.Extends changed := by
  obtain ⟨hn, rfl⟩ := addTable_eq_ok h
  exact OrderedMap.extends_insert Table.extends_refl hn table

theorem insertRow_extends {database : Database} (h : database.WellFormed) (name : String)
    (given : OrderedMap Value) : database.Extends (database.insertRow name given) := by
  refine OrderedMap.extends_modify Table.extends_refl ?_
  intro table ht
  exact Table.insert_extends (wellFormed_of_table? h ht) given

theorem table?_insertRow {database : Database} {name : String} {table : Table}
    (h : database.table? name = some table) (given : OrderedMap Value) :
    (database.insertRow name given).table? name = some (table.insert given) := by
  rw [table?, insertRow, OrderedMap.get?_modify, if_pos rfl, ← table?, h, Option.map_some]

end Database

namespace Catalog

def Extends (catalog later : Catalog) : Prop :=
  catalog.databases.Extends Database.Extends later.databases

theorem extends_refl (catalog : Catalog) : catalog.Extends catalog :=
  OrderedMap.extends_refl Database.extends_refl

theorem extends_trans (catalog later last : Catalog) (h : catalog.Extends later)
    (h' : later.Extends last) : catalog.Extends last :=
  OrderedMap.extends_trans Database.extends_trans h h'

theorem addDatabase_extends {catalog changed : Catalog} {database : Database}
    (h : catalog.addDatabase database = .ok changed) : catalog.Extends changed := by
  obtain ⟨hn, rfl⟩ := addDatabase_eq_ok h
  exact OrderedMap.extends_insert Database.extends_refl hn database

theorem change_extends {catalog : Catalog} {name : String} {f : Database → Database}
    (h : ∀ database, catalog.database? name = some database → database.Extends (f database)) :
    catalog.Extends (catalog.change name f) :=
  OrderedMap.extends_modify Database.extends_refl h

theorem database?_change {catalog : Catalog} {name : String} {database : Database}
    (h : catalog.database? name = some database) (f : Database → Database) :
    (catalog.change name f).database? name = some (f database) := by
  rw [database?, change, OrderedMap.get?_modify, if_pos rfl, ← database?, h, Option.map_some]

end Catalog

namespace Session

theorem step_extends {session session' : Session} (h : session.WellFormed)
    (hs : session.Step session') : session.catalog.Extends session'.catalog := by
  cases hs with
  | stay => exact Catalog.extends_refl _
  | createDatabase _ hc => exact Catalog.addDatabase_extends hc
  | useDatabase _ => exact Catalog.extends_refl _
  | createTable _ hd _ hc =>
    refine Catalog.change_extends ?_
    intro database hd'
    rw [Option.some.inj (hd'.symm.trans hd)]
    exact Database.addTable_extends hc
  | insert _ _ _ _ =>
    refine Catalog.change_extends ?_
    intro database hd
    have hdatabase := Catalog.wellFormed_of_database? h.catalog_wellFormed hd
    exact Database.insertRow_extends hdatabase _ _

theorem run_extends {session : Session} (h : session.WellFormed) (commands : List Command) :
    session.catalog.Extends (session.run commands).catalog := by
  induction commands generalizing session with
  | nil => exact Catalog.extends_refl _
  | cons command commands ih =>
    have hs := execute_step session command
    exact Catalog.extends_trans _ _ _ (step_extends h hs) (ih (step_wellFormed h hs))

/-- A table of the active database. -/
def table? (session : Session) (name : String) : Option Table :=
  session.database?.bind fun database => database.table? name

theorem table?_eq_some_iff {session : Session} {name : String} {table : Table} :
    session.table? name = some table ↔ ∃ active database, session.active = some active ∧
      session.catalog.database? active = some database ∧ database.table? name = some table := by
  rw [table?, Option.bind_eq_some_iff]
  constructor
  · intro h
    obtain ⟨database, hd, ht⟩ := h
    obtain ⟨active, ha, hd⟩ := database?_eq_some_iff.1 hd
    exact ⟨active, database, ha, hd, ht⟩
  · intro h
    obtain ⟨active, database, ha, hd, ht⟩ := h
    exact ⟨database, database?_eq_some_iff.2 ⟨active, ha, hd⟩, ht⟩

theorem wellFormed_of_table? {session : Session} (h : session.WellFormed) {name : String}
    {table : Table} (ht : session.table? name = some table) : table.WellFormed := by
  obtain ⟨database, hd, ht⟩ := Option.bind_eq_some_iff.1 ht
  exact Database.wellFormed_of_table? (wellFormed_of_database? h hd) ht

theorem isValid_of_table? {session : Session} (h : session.WellFormed) {name : String}
    {table : Table} (ht : session.table? name = some table) : Name.isValid name = true := by
  obtain ⟨database, hd, ht⟩ := Option.bind_eq_some_iff.1 ht
  have hdatabase := wellFormed_of_database? h hd
  exact hdatabase.names_valid name (Database.mem_tableNames_iff.2 ⟨table, ht⟩)

theorem table?_of_extends {session later : Session} (h : session.catalog.Extends later.catalog)
    (ha : later.active = session.active) {name : String} {table : Table}
    (ht : session.table? name = some table) :
    ∃ table', later.table? name = some table' ∧ table.Extends table' := by
  obtain ⟨active, database, hs, hd, ht⟩ := table?_eq_some_iff.1 ht
  obtain ⟨database', hd', hext⟩ := h active database hd
  obtain ⟨table', ht', htable⟩ := hext name table ht
  exact ⟨table', table?_eq_some_iff.2 ⟨active, database', ha.trans hs, hd', ht'⟩, htable⟩

/-- An insertion that is read adds its row to its table, and leaves the active database active. -/
theorem table?_insert {session : Session} {statement : String} {insertion : Insertion}
    {table : Table} (hi : Insertion.read statement = .ok insertion)
    (ht : session.table? insertion.table = some table) :
    (session.insert statement).session.table? insertion.table =
        some (table.insert insertion.values) ∧
      (session.insert statement).session.active = session.active := by
  obtain ⟨active, database, ha, hd, ht⟩ := table?_eq_some_iff.1 ht
  have hs : (session.insert statement).session = { session with
      catalog := session.catalog.change active
        (·.insertRow insertion.table insertion.values) } :=
    (execute_of_effect (.insert ha hd hi ht)).2
  rw [hs]
  exact ⟨table?_eq_some_iff.2 ⟨active, database.insertRow insertion.table insertion.values, ha,
    Catalog.database?_change hd _, Database.table?_insertRow ht _⟩, rfl⟩

/-- The record that an insertion adds is in its table from then on. -/
theorem record_mem_of_insert {session : Session} (h : session.WellFormed) {statement : String}
    {insertion : Insertion} (hi : Insertion.read statement = .ok insertion) {table : Table}
    (ht : session.table? insertion.table = some table) (commands : List Command)
    (ha : ((session.insert statement).session.run commands).active = session.active) :
    ∃ table', ((session.insert statement).session.run commands).table? insertion.table =
        some table' ∧ table'.schema = table.schema ∧
      table.schema.record insertion.values ∈ table'.records := by
  obtain ⟨hinserted, hactive⟩ := table?_insert hi ht
  have hw := step_wellFormed h (execute_step session (.insert statement))
  obtain ⟨table', ht', hext⟩ :=
    table?_of_extends (run_extends hw commands) (ha.trans hactive.symm) hinserted
  refine ⟨table', ht', hext.schema_eq, hext.records_prefix.subset ?_⟩
  rw [Table.records_insert (wellFormed_of_table? h ht)]
  exact List.mem_append_right _ (List.mem_singleton.2 rfl)

end Session
end TableShell
