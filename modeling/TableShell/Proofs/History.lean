import TableShell.Proofs.Channels

/-
Sessions and their histories.

A history has the commands that were run since the empty session, with their answers. It knows no
catalog: the databases, the active one and the tables are read off the commands that succeeded. What
the next command does is decided by that alone.
-/
namespace TableShell

/-- Commands with their answers, the latest first. -/
abbrev History := List (Command × Except Error String)

namespace History

/-- The database that a command created. -/
def createdDatabase? : Command × Except Error String → Option String
  | (.createDatabase name, .ok _) => some name
  | _ => none

/-- The created databases in order. -/
def databases : History → List String
  | [] => []
  | entry :: earlier => databases earlier ++ (createdDatabase? entry).toList

/-- The database that was last put to use. -/
def active : History → Option String
  | [] => none
  | (.useDatabase name, .ok _) :: _ => some name
  | _ :: earlier => active earlier

/-- The table that a command created in the database, given what was run before. -/
def createdTable? (database : String) (earlier : History) :
    Command × Except Error String → Option String
  | (.createTable definition, .ok _) =>
    if earlier.active = some database then
      (Definition.readTable definition).toOption.map Table.name
    else none
  | _ => none

/-- The tables created in the database, in order. -/
def tables (database : String) : History → List String
  | [] => []
  | entry :: earlier =>
    tables database earlier ++ (createdTable? database earlier entry).toList

/-- The history of a run of commands from the empty session. -/
def ofCommands (commands : List Command) : History :=
  (Channel.executing.record .empty commands).reverse

/-- The answer to a command is what the history says: it succeeds exactly where the names it needs
are there and those it gives are not, and a list has the names in order, or says that there are
none. -/
def Decides (history : History) (command : Command) (answer : Except Error String) : Prop :=
  match command with
  | .createDatabase name =>
    answer.isOk = true ↔ Name.isValid name = true ∧ name ∉ history.databases
  | .useDatabase name => answer.isOk = true ↔ name ∈ history.databases
  | .createTable definition =>
    answer.isOk = true ↔ ∃ database table, history.active = some database ∧
      Definition.readTable definition = .ok table ∧ table.name ∉ history.tables database
  | .insert statement =>
    answer.isOk = true ↔ ∃ database insertion, history.active = some database ∧
      Insertion.read statement = .ok insertion ∧ insertion.table ∈ history.tables database
  | .select text =>
    answer.isOk = true ↔ ∃ database query, history.active = some database ∧
      Query.read text = .ok query ∧ query.table ∈ history.tables database
  | .listDatabases =>
    (history.databases = [] → answer = .ok "No databases") ∧
      (history.databases ≠ [] → answer = .ok (", ".intercalate history.databases))
  | .listTables =>
    (history.active = none → answer = .error .noActiveDatabase) ∧
      ∀ database, history.active = some database →
        (history.tables database = [] → answer = .ok ("No tables in database " ++ database)) ∧
          (history.tables database ≠ [] →
            answer = .ok (", ".intercalate (history.tables database)))
  | .quit | .unknown => answer = .error .unknownCommand

end History

namespace Database

theorem tableNames_addTable {database : Database} {table : Table}
    (h : table.name ∉ database.tableNames) :
    tableNames { database with tables := database.tables.insert table.name table } =
      database.tableNames ++ [table.name] :=
  OrderedMap.keys_insert_of_not_mem h table

theorem tableNames_insertRow (database : Database) (table : String) (given : OrderedMap Value) :
    (database.insertRow table given).tableNames = database.tableNames :=
  OrderedMap.keys_modify database.tables table _

end Database

namespace Catalog

/-- The names of the tables under a database, none where there is no such database. -/
def tableNames (catalog : Catalog) (name : String) : List String :=
  ((catalog.database? name).map Database.tableNames).getD []

theorem tableNames_of_database? {catalog : Catalog} {name : String} {database : Database}
    (h : catalog.database? name = some database) :
    catalog.tableNames name = database.tableNames := by
  rw [tableNames, h]
  rfl

theorem tableNames_addDatabase {catalog : Catalog} {name : String}
    (h : name ∉ catalog.databaseNames) (name' : String) :
    tableNames ⟨catalog.databases.insert name ⟨name, .empty⟩⟩ name' = catalog.tableNames name' := by
  rw [tableNames, database?, OrderedMap.get?_insert]
  split
  · next hn =>
    rw [tableNames, database?, hn, OrderedMap.get?_eq_none_iff.2 h]
    rfl
  · rfl

theorem tableNames_change {catalog : Catalog} {name : String} {database : Database}
    (h : catalog.database? name = some database) (f : Database → Database) (name' : String) :
    (catalog.change name f).tableNames name' =
      if name' = name then (f database).tableNames else catalog.tableNames name' := by
  rw [tableNames, database?, change, OrderedMap.get?_modify]
  split
  · next hn =>
    rw [hn, ← database?, h]
    rfl
  · rfl

theorem tableNames_change_insertRow {catalog : Catalog} {name : String} {database : Database}
    (h : catalog.database? name = some database) (table : String) (given : OrderedMap Value)
    (name' : String) :
    (catalog.change name (·.insertRow table given)).tableNames name' =
      catalog.tableNames name' := by
  rw [tableNames_change h, Database.tableNames_insertRow]
  split
  · next hn => rw [hn, tableNames_of_database? h]
  · rfl

theorem nodup_tableNames (catalog : Catalog) (name : String) :
    (catalog.tableNames name).Nodup := by
  rw [tableNames]
  cases catalog.database? name with
  | none => exact List.nodup_nil
  | some database => exact database.tables.nodup

end Catalog

namespace Session

open History

/-- The session holds what the history says was created, and has the database active that the
history says. -/
structure Follows (session : Session) (history : History) : Prop where
  databases_eq : session.catalog.databaseNames = history.databases
  active_eq : session.active = history.active
  tables_eq : ∀ database, session.catalog.tableNames database = history.tables database

variable {session session' : Session} {history : History} {command : Command} {text : String}

theorem empty_follows : empty.Follows [] :=
  ⟨rfl, rfl, fun _ => rfl⟩

/-- An entry that creates nothing and puts nothing to use leaves everything as it was. -/
theorem follows_cons (h : session.Follows history) {entry : Command × Except Error String}
    (hd : createdDatabase? entry = none) (ha : History.active (entry :: history) = history.active)
    (ht : ∀ database, createdTable? database history entry = none) :
    session.Follows (entry :: history) := by
  refine ⟨?_, ?_, fun database => ?_⟩
  · rw [databases, hd, Option.toList_none, List.append_nil, h.databases_eq]
  · rw [ha, h.active_eq]
  · rw [tables, ht, Option.toList_none, List.append_nil, h.tables_eq]

theorem follows_of_effect (h : session.Follows history)
    (he : session.Effect command text session') :
    session'.Follows ((command, .ok text) :: history) := by
  cases he with
  | createDatabase hn hnew =>
    refine ⟨?_, h.active_eq, fun database => ?_⟩
    · rw [databases, ← h.databases_eq]
      exact OrderedMap.keys_insert_of_not_mem hnew _
    · rw [Catalog.tableNames_addDatabase hnew, h.tables_eq]
      exact (List.append_nil _).symm
  | listDatabases => exact follows_cons h rfl rfl fun _ => rfl
  | useDatabase _ =>
    refine ⟨?_, rfl, fun database => ?_⟩
    · rw [h.databases_eq]
      exact (List.append_nil _).symm
    · rw [h.tables_eq]
      exact (List.append_nil _).symm
  | listTables _ => exact follows_cons h rfl rfl fun _ => rfl
  | @createTable name definition database table hactive hdatabase hread hnew =>
    refine ⟨?_, h.active_eq, fun name' => ?_⟩
    · rw [Catalog.databaseNames_change, h.databases_eq]
      exact (List.append_nil _).symm
    · rw [Catalog.tableNames_change hdatabase, tables, createdTable?, ← h.active_eq, hactive,
        hread, ← h.tables_eq]
      by_cases hn : name' = name
      · rw [if_pos hn, Database.tableNames_addTable hnew, hn, if_pos rfl,
          Catalog.tableNames_of_database? hdatabase]
        rfl
      · rw [if_neg hn, if_neg fun hs => hn (Option.some.inj hs).symm]
        exact (List.append_nil _).symm
  | select _ _ _ => exact follows_cons h rfl rfl fun _ => rfl
  | @insert name statement database insertion table hactive hdatabase hread htable =>
    have hsame : Follows ⟨session.catalog.change name
        (·.insertRow insertion.table insertion.values), session.active⟩ history := by
      refine ⟨?_, h.active_eq, fun name' => ?_⟩
      · rw [Catalog.databaseNames_change, h.databases_eq]
      · rw [Catalog.tableNames_change_insertRow hdatabase, h.tables_eq]
    exact follows_cons hsame rfl rfl fun _ => rfl

theorem follows_execute (h : session.Follows history) (command : Command) :
    (session.execute command).session.Follows
      ((command, (session.execute command).answer) :: history) := by
  cases hanswer : (session.execute command).answer with
  | ok text => exact follows_of_effect h (effect_of_answer hanswer)
  | error cause =>
    rw [session_execute_of_error hanswer]
    refine follows_cons h ?_ ?_ fun database => ?_
    · cases command <;> rfl
    · cases command <;> rfl
    · cases command <;> rfl

/-- The active database is there, and the history knows its tables. -/
theorem exists_active (hw : session.WellFormed) (h : session.Follows history) {name : String}
    (ha : history.active = some name) :
    ∃ database, session.active = some name ∧ session.catalog.database? name = some database ∧
      database.name = name ∧ database.tableNames = history.tables name := by
  rw [← h.active_eq] at ha
  obtain ⟨database, hd⟩ := Catalog.mem_databaseNames_iff.1 (hw.active_mem name ha)
  have hname := (OrderedMap.keyed_get? hw.catalog_wellFormed.databases_keyed hd).1
  exact ⟨database, ha, hd, hname, by rw [← h.tables_eq, Catalog.tableNames_of_database? hd]⟩

theorem exists_table_iff (hw : session.WellFormed) (h : session.Follows history)
    {name table : String} :
    history.active = some name ∧ table ∈ history.tables name ↔
      ∃ database stored, session.active = some name ∧
        session.catalog.database? name = some database ∧ database.table? table = some stored := by
  constructor
  · intro hm
    obtain ⟨database, ha, hd, -, htables⟩ := exists_active hw h hm.1
    rw [← htables] at hm
    obtain ⟨stored, hs⟩ := Database.mem_tableNames_iff.1 hm.2
    exact ⟨database, stored, ha, hd, hs⟩
  · intro hs
    obtain ⟨database, stored, ha, hd, hs⟩ := hs
    refine ⟨h.active_eq.symm.trans ha, ?_⟩
    rw [← h.tables_eq, Catalog.tableNames_of_database? hd]
    exact Database.mem_tableNames_iff.2 ⟨stored, hs⟩

/-! ### Each kind of command -/

/-- A listing says that there is nothing, or has the names with commas between them. -/
theorem listing_cases {answer : Except Error String} {names : List String} {ifEmpty : String}
    (h : answer = .ok (enumerate names ifEmpty)) :
    (names = [] → answer = .ok ifEmpty) ∧
      (names ≠ [] → answer = .ok (", ".intercalate names)) := by
  subst h
  cases names with
  | nil => exact ⟨fun _ => rfl, fun hne => absurd rfl hne⟩
  | cons name names => exact ⟨fun hnil => absurd hnil (List.cons_ne_nil _ _), fun _ => rfl⟩

theorem decides_createDatabase (h : session.Follows history) (name : String) :
    history.Decides (.createDatabase name) (session.execute (.createDatabase name)).answer := by
  rw [Decides, isOk_execute_iff, ← h.databases_eq]
  constructor
  · intro hs
    obtain ⟨_, _, hs⟩ := hs
    cases hs with
    | createDatabase hn hnew => exact ⟨hn, hnew⟩
  · intro hs
    exact ⟨_, _, .createDatabase hs.1 hs.2⟩

theorem decides_listDatabases (h : session.Follows history) :
    history.Decides .listDatabases (session.execute .listDatabases).answer := by
  rw [Decides, ← h.databases_eq]
  exact listing_cases (execute_of_effect .listDatabases).1

theorem decides_useDatabase (h : session.Follows history) (name : String) :
    history.Decides (.useDatabase name) (session.execute (.useDatabase name)).answer := by
  rw [Decides, isOk_execute_iff, ← h.databases_eq]
  constructor
  · intro hs
    obtain ⟨_, _, hs⟩ := hs
    cases hs with
    | useDatabase hm => exact hm
  · intro hm
    exact ⟨_, _, .useDatabase hm⟩

theorem decides_listTables (hw : session.WellFormed) (h : session.Follows history) :
    history.Decides .listTables (session.execute .listTables).answer := by
  constructor
  · intro ha
    rw [← h.active_eq] at ha
    simp only [execute, listTables, database?, ha, Option.bind_none, fail]
  · intro name ha
    obtain ⟨database, hactive, hd, hname, htables⟩ := exists_active hw h ha
    have hanswer := (execute_of_effect
      (.listTables (database?_eq_some_iff.2 ⟨name, hactive, hd⟩))).1
    rw [htables, hname] at hanswer
    exact listing_cases hanswer

theorem decides_createTable (hw : session.WellFormed) (h : session.Follows history)
    (definition : String) :
    history.Decides (.createTable definition)
      (session.execute (.createTable definition)).answer := by
  rw [Decides, isOk_execute_iff]
  constructor
  · intro hs
    obtain ⟨_, _, hs⟩ := hs
    cases hs with
    | createTable ha hd ht hnew =>
      refine ⟨_, _, h.active_eq.symm.trans ha, ht, ?_⟩
      rwa [← h.tables_eq, Catalog.tableNames_of_database? hd]
  · intro hs
    obtain ⟨name, table, ha, ht, hnew⟩ := hs
    obtain ⟨database, hactive, hd, -, htables⟩ := exists_active hw h ha
    rw [← htables] at hnew
    exact ⟨_, _, .createTable hactive hd ht hnew⟩

theorem decides_select (hw : session.WellFormed) (h : session.Follows history) (text : String) :
    history.Decides (.select text) (session.execute (.select text)).answer := by
  rw [Decides, isOk_execute_iff]
  constructor
  · intro hs
    obtain ⟨_, _, hs⟩ := hs
    cases hs with
    | select hd hq ht =>
      obtain ⟨name, ha, hd⟩ := database?_eq_some_iff.1 hd
      obtain ⟨hactive, hm⟩ := (exists_table_iff hw h).2 ⟨_, _, ha, hd, ht⟩
      exact ⟨name, _, hactive, hq, hm⟩
  · intro hs
    obtain ⟨name, query, ha, hq, hm⟩ := hs
    obtain ⟨database, stored, hactive, hd, ht⟩ := (exists_table_iff hw h).1 ⟨ha, hm⟩
    exact ⟨_, _, .select (database?_eq_some_iff.2 ⟨name, hactive, hd⟩) hq ht⟩

theorem decides_insert (hw : session.WellFormed) (h : session.Follows history)
    (statement : String) :
    history.Decides (.insert statement) (session.execute (.insert statement)).answer := by
  rw [Decides, isOk_execute_iff]
  constructor
  · intro hs
    obtain ⟨_, _, hs⟩ := hs
    cases hs with
    | insert ha hd hi ht =>
      obtain ⟨hactive, hm⟩ := (exists_table_iff hw h).2 ⟨_, _, ha, hd, ht⟩
      exact ⟨_, _, hactive, hi, hm⟩
  · intro hs
    obtain ⟨name, insertion, ha, hi, hm⟩ := hs
    obtain ⟨database, stored, hactive, hd, ht⟩ := (exists_table_iff hw h).1 ⟨ha, hm⟩
    exact ⟨_, _, .insert hactive hd hi ht⟩

theorem decides_execute (hw : session.WellFormed) (h : session.Follows history)
    (command : Command) : history.Decides command (session.execute command).answer := by
  cases command with
  | createDatabase name => exact decides_createDatabase h name
  | listDatabases => exact decides_listDatabases h
  | useDatabase name => exact decides_useDatabase h name
  | listTables => exact decides_listTables hw h
  | createTable definition => exact decides_createTable hw h definition
  | select text => exact decides_select hw h text
  | insert statement => exact decides_insert hw h statement
  | quit => rfl
  | unknown => rfl

/-! ### Runs -/

theorem ofCommands_concat (commands : List Command) (command : Command) :
    ofCommands (commands ++ [command]) =
      (command, ((empty.run commands).execute command).answer) :: ofCommands commands := by
  rw [ofCommands, Channel.record_concat, List.reverse_append]
  rfl

theorem run_follows (commands : List Command) :
    (empty.run commands).Follows (ofCommands commands) := by
  induction commands using List.reverseRecOn with
  | nil => exact empty_follows
  | append_singleton commands command ih =>
    rw [ofCommands_concat, run, List.foldl_append]
    exact follows_execute ih command

/-- After every run of commands the history tells the active database and what the next command
does, and no name was created twice. -/
theorem history_decides (commands : List Command) (command : Command) :
    (empty.run commands).active = (ofCommands commands).active ∧
      (ofCommands commands).databases.Nodup ∧
      (∀ database, ((ofCommands commands).tables database).Nodup) ∧
      (ofCommands commands).Decides command
        ((empty.run commands).execute command).answer := by
  have h := run_follows commands
  have hw : (empty.run commands).WellFormed :=
    run_wellFormed (start_wellFormed Catalog.Built.empty.wellFormed) commands
  refine ⟨h.active_eq, ?_, fun database => ?_, decides_execute hw h command⟩
  · rw [← h.databases_eq]
    exact (empty.run commands).catalog.databases.nodup
  · rw [← h.tables_eq]
    exact Catalog.nodup_tableNames _ database

end Session
end TableShell
