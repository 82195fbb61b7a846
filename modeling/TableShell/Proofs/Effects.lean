import TableShell.Session
import TableShell.Proofs.WellFormed

/-
The effects of commands.

`Session.Effect` lists the ways in which a command can succeed, each with all that has to hold
there, the answer and the session behind. A command succeeds exactly with such an effect, and
without one it leaves the session as it was.
-/
namespace TableShell
namespace Session

theorem database?_eq_some_iff {session : Session} {database : Database} :
    session.database? = some database ↔
      ∃ name, session.active = some name ∧ session.catalog.database? name = some database :=
  Option.bind_eq_some_iff

theorem change_of_active {session : Session} {name : String} (h : session.active = some name)
    (f : Database → Database) :
    session.change f = { session with catalog := session.catalog.change name f } := by
  rw [change, h]

/-- What a command that succeeds answers, and the session behind it. -/
inductive Effect (session : Session) : Command → String → Session → Prop
  | createDatabase {name : String} (hn : Name.isValid name = true)
      (hnew : name ∉ session.catalog.databaseNames) :
      Effect session (.createDatabase name) ("Database " ++ name ++ " created")
        { session with catalog := ⟨session.catalog.databases.insert name ⟨name, .empty⟩⟩ }
  | listDatabases :
      Effect session .listDatabases
        (enumerate session.catalog.databaseNames "No databases") session
  | useDatabase {name : String} (hm : name ∈ session.catalog.databaseNames) :
      Effect session (.useDatabase name) ("Active database: " ++ name)
        { session with active := some name }
  | listTables {database : Database} (hd : session.database? = some database) :
      Effect session .listTables
        (enumerate database.tableNames ("No tables in database " ++ database.name)) session
  | createTable {name definition : String} {database : Database} {table : Table}
      (ha : session.active = some name) (hd : session.catalog.database? name = some database)
      (ht : Definition.readTable definition = .ok table)
      (hnew : table.name ∉ database.tableNames) :
      Effect session (.createTable definition) ("Table " ++ table.name ++ " created")
        { session with catalog := session.catalog.change name fun _ =>
          { database with tables := database.tables.insert table.name table } }
  | select {text : String} {database : Database} {query : Query} {table : Table}
      (hd : session.database? = some database) (hq : Query.read text = .ok query)
      (ht : database.table? query.table = some table) :
      Effect session (.select text) (Row.printAll (table.select query.condition)) session
  | insert {name statement : String} {database : Database} {insertion : Insertion} {table : Table}
      (ha : session.active = some name) (hd : session.catalog.database? name = some database)
      (hi : Insertion.read statement = .ok insertion)
      (ht : database.table? insertion.table = some table) :
      Effect session (.insert statement) ("1 row inserted into " ++ insertion.table)
        { session with
          catalog := session.catalog.change name (·.insertRow insertion.table insertion.values) }

/-- The outcome is that of an effect, or it is a failure and the session is the same. -/
def Accounts (session : Session) (command : Command) (outcome : Outcome) : Prop :=
  match outcome.answer with
  | .ok text => session.Effect command text outcome.session
  | .error _ => outcome.session = session

theorem accounts_createDatabase (session : Session) (name : String) :
    session.Accounts (.createDatabase name) (session.createDatabase name) := by
  rw [createDatabase]
  split
  · exact rfl
  · next database hd =>
    obtain ⟨hn, rfl⟩ := Database.create_eq_ok hd
    split
    · exact rfl
    · next catalog hc =>
      obtain ⟨hnew, rfl⟩ := Catalog.addDatabase_eq_ok hc
      exact .createDatabase hn hnew

theorem accounts_useDatabase (session : Session) (name : String) :
    session.Accounts (.useDatabase name) (session.useDatabase name) := by
  rw [useDatabase]
  split
  · exact rfl
  · next database hd => exact .useDatabase (Catalog.mem_databaseNames_iff.2 ⟨database, hd⟩)

theorem accounts_listTables (session : Session) :
    session.Accounts .listTables session.listTables := by
  rw [listTables]
  split
  · exact rfl
  · next database hd => exact .listTables hd

theorem accounts_createTable (session : Session) (definition : String) :
    session.Accounts (.createTable definition) (session.createTable definition) := by
  rw [createTable]
  split
  · exact rfl
  · next database hd =>
    obtain ⟨name, ha, hd⟩ := database?_eq_some_iff.1 hd
    split
    · exact rfl
    · next table ht =>
      split
      · exact rfl
      · next changed hc =>
        obtain ⟨hnew, rfl⟩ := Database.addTable_eq_ok hc
        rw [change_of_active ha]
        exact .createTable ha hd ht hnew

theorem accounts_select (session : Session) (query : String) :
    session.Accounts (.select query) (session.select query) := by
  rw [select]
  split
  · exact rfl
  · next database hd =>
    split
    · exact rfl
    · next query hq =>
      split
      · exact rfl
      · next table ht => exact .select hd hq ht

theorem accounts_insert (session : Session) (statement : String) :
    session.Accounts (.insert statement) (session.insert statement) := by
  rw [insert]
  split
  · exact rfl
  · next database hd =>
    obtain ⟨name, ha, hd⟩ := database?_eq_some_iff.1 hd
    split
    · exact rfl
    · next insertion hi =>
      split
      · exact rfl
      · next table ht =>
        rw [change_of_active ha]
        exact .insert ha hd hi ht

theorem accounts_execute (session : Session) (command : Command) :
    session.Accounts command (session.execute command) := by
  cases command with
  | createDatabase name => exact accounts_createDatabase session name
  | listDatabases => exact .listDatabases
  | useDatabase name => exact accounts_useDatabase session name
  | listTables => exact accounts_listTables session
  | createTable definition => exact accounts_createTable session definition
  | select query => exact accounts_select session query
  | insert statement => exact accounts_insert session statement
  | quit => exact rfl
  | unknown => exact rfl

variable {session session' : Session} {command : Command} {text : String} {cause : Error}

theorem effect_of_answer (h : (session.execute command).answer = .ok text) :
    session.Effect command text (session.execute command).session := by
  have := accounts_execute session command
  rwa [Accounts, h] at this

/-- A command that fails changes nothing. -/
theorem session_execute_of_error (h : (session.execute command).answer = .error cause) :
    (session.execute command).session = session := by
  have := accounts_execute session command
  rwa [Accounts, h] at this

theorem execute_of_effect (h : session.Effect command text session') :
    (session.execute command).answer = .ok text ∧
      (session.execute command).session = session' := by
  cases h with
  | @createDatabase name hn hnew =>
    have hc : session.catalog.addDatabase ⟨name, .empty⟩ = .ok _ :=
      Catalog.addDatabase_of_not_mem hnew
    simp only [execute, Session.createDatabase, Database.create_of_isValid hn, hc, and_self]
  | listDatabases => exact ⟨rfl, rfl⟩
  | useDatabase hm =>
    obtain ⟨database, hd⟩ := Catalog.mem_databaseNames_iff.1 hm
    simp only [execute, Session.useDatabase, hd, and_self]
  | listTables hd => simp only [execute, Session.listTables, hd, and_self]
  | createTable ha hd ht hnew =>
    simp only [execute, Session.createTable, database?_eq_some_iff.2 ⟨_, ha, hd⟩, ht,
      Database.addTable_of_not_mem hnew, change_of_active ha, and_self]
  | select hd hq ht => simp only [execute, Session.select, hd, hq, ht, and_self]
  | insert ha hd hi ht =>
    simp only [execute, Session.insert, database?_eq_some_iff.2 ⟨_, ha, hd⟩, hi, ht,
      change_of_active ha, and_self]

theorem isOk_execute_iff :
    (session.execute command).answer.isOk = true ↔
      ∃ text session', session.Effect command text session' := by
  constructor
  · intro h
    cases ha : (session.execute command).answer with
    | ok text => exact ⟨text, _, effect_of_answer ha⟩
    | error cause =>
      rw [ha] at h
      exact absurd h Bool.false_ne_true
  · intro h
    obtain ⟨text, session', he⟩ := h
    rw [(execute_of_effect he).1]
    rfl

end Session
end TableShell
