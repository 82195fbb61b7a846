import TableShell.Proofs.Effects

/-
What commands do to a session, and what a run of commands keeps.

`Session.Step` lists the ways in which a command can change the session, each with all that is
known there. An invariant is proved for these ways and thereby for every run.
-/
namespace TableShell

theorem Definition.readTable_wellFormed {definition : String} {table : Table}
    (h : readTable definition = .ok table) : table.WellFormed := by
  rw [readTable] at h
  split at h
  · exact absurd h (by simp)
  · exact Table.create_wellFormed h

namespace Session

/-- The session behind a command, if it is another one at all. -/
inductive Step (session : Session) : Session → Prop
  | stay : Step session session
  | createDatabase {name : String} {database : Database} {catalog : Catalog}
      (hd : Database.create name = .ok database)
      (hc : session.catalog.addDatabase database = .ok catalog) :
      Step session { session with catalog }
  | useDatabase {name : String} {database : Database}
      (h : session.catalog.database? name = some database) :
      Step session { session with active := some name }
  | createTable {name definition : String} {database changed : Database} {table : Table}
      (ha : session.active = some name) (hd : session.catalog.database? name = some database)
      (ht : Definition.readTable definition = .ok table)
      (hc : database.addTable table = .ok changed) :
      Step session { session with catalog := session.catalog.change name fun _ => changed }
  | insert {name statement : String} {database : Database} {insertion : Insertion} {table : Table}
      (ha : session.active = some name) (hd : session.catalog.database? name = some database)
      (hi : Insertion.read statement = .ok insertion)
      (ht : database.table? insertion.table = some table) :
      Step session { session with
        catalog := session.catalog.change name (·.insertRow insertion.table insertion.values) }

theorem step_of_effect {session session' : Session} {command : Command} {text : String}
    (h : session.Effect command text session') : session.Step session' := by
  cases h with
  | createDatabase hn hnew =>
    exact .createDatabase (Database.create_of_isValid hn) (Catalog.addDatabase_of_not_mem hnew)
  | listDatabases => exact .stay
  | useDatabase hm =>
    obtain ⟨database, hd⟩ := Catalog.mem_databaseNames_iff.1 hm
    exact .useDatabase hd
  | listTables hd => exact .stay
  | createTable ha hd ht hnew => exact .createTable ha hd ht (Database.addTable_of_not_mem hnew)
  | select hd hq ht => exact .stay
  | insert ha hd hi ht => exact .insert ha hd hi ht

theorem execute_step (session : Session) (command : Command) :
    session.Step (session.execute command).session := by
  cases h : (session.execute command).answer with
  | ok text => exact step_of_effect (effect_of_answer h)
  | error cause =>
    rw [session_execute_of_error h]
    exact .stay

/-- The catalog is well-formed, and the active database is one of it. -/
structure WellFormed (session : Session) : Prop where
  catalog_wellFormed : session.catalog.WellFormed
  active_mem : ∀ name, session.active = some name → name ∈ session.catalog.databaseNames

theorem start_wellFormed {catalog : Catalog} (h : catalog.WellFormed) :
    (start catalog).WellFormed :=
  ⟨h, fun _ ha => absurd ha (by simp [start])⟩

theorem empty_wellFormed : empty.WellFormed :=
  start_wellFormed Catalog.Built.empty.wellFormed

theorem wellFormed_of_database? {session : Session} (h : session.WellFormed) {database : Database}
    (hd : session.database? = some database) : database.WellFormed := by
  obtain ⟨name, -, hd⟩ := database?_eq_some_iff.1 hd
  exact Catalog.wellFormed_of_database? h.catalog_wellFormed hd

theorem step_wellFormed {session session' : Session} (h : session.WellFormed)
    (hs : session.Step session') : session'.WellFormed := by
  obtain ⟨hcatalog, hactive⟩ := h
  cases hs with
  | stay => exact ⟨hcatalog, hactive⟩
  | createDatabase hd hc =>
    refine ⟨Catalog.addDatabase_wellFormed hcatalog (Database.create_wellFormed hd) hc, ?_⟩
    intro name ha
    obtain ⟨hn, rfl⟩ := Catalog.addDatabase_eq_ok hc
    rw [Catalog.databaseNames, OrderedMap.keys_insert_of_not_mem hn]
    exact List.mem_append_left _ (hactive name ha)
  | useDatabase hd =>
    refine ⟨hcatalog, ?_⟩
    rintro name ⟨⟩
    exact List.mem_map_of_mem (f := Prod.fst) (OrderedMap.get?_eq_some_iff.1 hd)
  | createTable ha hd ht hc =>
    refine ⟨Catalog.change_addTable_wellFormed hcatalog hd
      (Definition.readTable_wellFormed ht) hc, ?_⟩
    rw [Catalog.databaseNames_change]
    exact hactive
  | insert ha hd hi ht =>
    refine ⟨Catalog.change_insertRow_wellFormed hcatalog _ _ _, ?_⟩
    rw [Catalog.databaseNames_change]
    exact hactive

/-- Runs commands one after the other, whether they succeed or fail. -/
def run (session : Session) (commands : List Command) : Session :=
  commands.foldl (fun session command => (session.execute command).session) session

theorem run_wellFormed {session : Session} (h : session.WellFormed) (commands : List Command) :
    (session.run commands).WellFormed := by
  induction commands generalizing session with
  | nil => exact h
  | cons command commands ih => exact ih (step_wellFormed h (execute_step session command))

/-- Sessions that commands reach from a built catalog. -/
def Reachable (session : Session) : Prop :=
  ∃ catalog : Catalog, catalog.Built ∧ ∃ commands, session = (start catalog).run commands

theorem Reachable.wellFormed {session : Session} (h : session.Reachable) : session.WellFormed := by
  obtain ⟨catalog, hc, commands, rfl⟩ := h
  exact run_wellFormed (start_wellFormed hc.wellFormed) commands

/-- In a reachable session the catalog is well-formed and has the active database. So no cell of any
table is looked for beyond its vector, and whatever is selected fits the schema. -/
theorem reachable_wellFormed {session : Session} (h : session.Reachable) :
    session.WellFormed ∧
      ∀ database ∈ session.catalog.databases.values, ∀ table ∈ database.tables.values,
        (∀ column ∈ table.columns, ∀ i < column.nulls.size, (column.cells.get? i).isSome = true) ∧
          ∀ condition, ∀ row ∈ table.select condition, row.Fits table.schema := by
  refine ⟨h.wellFormed, ?_⟩
  intro database hd table ht
  obtain ⟨e, he, rfl⟩ := List.mem_map.1 hd
  obtain ⟨e', he', rfl⟩ := List.mem_map.1 ht
  have hdatabase := (h.wellFormed.catalog_wellFormed.databases_keyed e he).2
  have htable := (hdatabase.tables_keyed e' he').2
  refine ⟨?_, fun condition row hr => Table.fits_of_mem_select htable hr⟩
  intro column hc i hi
  have hs := (htable.columns_wellFormed column hc).size_eq
  exact Cells.isSome_get? (hs ▸ hi)

/-- From a catalog with a table and a row: a duplicate table, a broken query, a row with a column
that the table lacks, and a definition that names a column again. -/
theorem reachable_wellFormed_prepared :
    ∃ catalog : Catalog, catalog.Built ∧ catalog.databaseNames = ["d"] ∧
      let session := (start catalog).run [.useDatabase "d", .createTable "t (n int)",
        .select "t where n", .insert "insert into t (s, x) values (7, 1)",
        .createTable "u (a int, b int, a varchar)"]
      session.WellFormed ∧ session.database?.map Database.tableNames = some ["t", "u"] ∧
        ∀ database ∈ session.catalog.databases.values, ∀ table ∈ database.tables.values,
          ∀ condition, ∀ row ∈ table.select condition, row.Fits table.schema := by
  have htable : Table.Built _ := .insert
    (.create (show Table.create "t" [("n", "int"), ("s", "varchar")] = .ok _ from rfl))
    (.ofList [("n", .text "1e3")])
  have hdatabase : Database.Built _ :=
    .addTable (.create (show Database.create "d" = .ok _ from rfl)) htable rfl
  have hcatalog : Catalog.Built _ := .addDatabase .empty hdatabase rfl
  refine ⟨_, hcatalog, rfl, ?_⟩
  intro session
  obtain ⟨hw, hcells⟩ := reachable_wellFormed (⟨_, hcatalog, _, rfl⟩ : session.Reachable)
  refine ⟨hw, by decide +kernel, ?_⟩
  exact fun database hd table ht => (hcells database hd table ht).2

end Session
end TableShell
