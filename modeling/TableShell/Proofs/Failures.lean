import TableShell.Proofs.Effects

/-
The ways in which commands fail.

`Session.Failure` lists them with their causes, as `Session.Effect` lists the ways to succeed. A
failure leaves the session as it was and has no event of its own.
-/
namespace TableShell

/-- The commands that work in the active database. -/
def Command.needsDatabase : Command → Bool
  | .listTables | .createTable _ | .select _ | .insert _ => true
  | _ => false

theorem Catalog.addDatabase_eq_error {catalog : Catalog} {database : Database} {cause : Error}
    (h : catalog.addDatabase database = .error cause) :
    database.name ∈ catalog.databaseNames ∧ cause = .databaseExists database.name := by
  rw [addDatabase] at h
  split at h
  · next hm => exact ⟨OrderedMap.contains_iff.1 hm, (Except.error.inj h).symm⟩
  · exact absurd h (by simp)

theorem Database.addTable_eq_error {database : Database} {table : Table} {cause : Error}
    (h : database.addTable table = .error cause) :
    table.name ∈ database.tableNames ∧ cause = .tableExists table.name := by
  rw [addTable] at h
  split at h
  · next hm => exact ⟨OrderedMap.contains_iff.1 hm, (Except.error.inj h).symm⟩
  · exact absurd h (by simp)

namespace Session

/-- The causes for which a command can fail. -/
inductive Failure (session : Session) : Command → Error → Prop
  | noActiveDatabase {command : Command} (hc : command.needsDatabase = true)
      (hd : session.database? = none) : Failure session command .noActiveDatabase
  | invalidDatabase {name : String} {cause : Error} (h : Database.create name = .error cause) :
      Failure session (.createDatabase name) cause
  | databaseExists {name : String} (hm : name ∈ session.catalog.databaseNames) :
      Failure session (.createDatabase name) (.databaseExists name)
  | unknownDatabase {name : String} (hm : name ∉ session.catalog.databaseNames) :
      Failure session (.useDatabase name) (.unknownDatabase name)
  | invalidDefinition {definition : String} {cause : Error}
      (h : Definition.readTable definition = .error cause) :
      Failure session (.createTable definition) cause
  | tableExists {definition : String} {database : Database} {table : Table}
      (hd : session.database? = some database) (ht : Definition.readTable definition = .ok table)
      (hm : table.name ∈ database.tableNames) :
      Failure session (.createTable definition) (.tableExists table.name)
  | invalidQuery {text : String} {cause : Error} (h : Query.read text = .error cause) :
      Failure session (.select text) cause
  | unknownSelected {text : String} {database : Database} {query : Query}
      (hd : session.database? = some database) (hq : Query.read text = .ok query)
      (hm : query.table ∉ database.tableNames) :
      Failure session (.select text) (.unknownTable query.table)
  | invalidInsertion {statement : String} {cause : Error}
      (h : Insertion.read statement = .error cause) :
      Failure session (.insert statement) cause
  | unknownTarget {statement : String} {database : Database} {insertion : Insertion}
      (hd : session.database? = some database) (hi : Insertion.read statement = .ok insertion)
      (hm : insertion.table ∉ database.tableNames) :
      Failure session (.insert statement) (.unknownTable insertion.table)
  | unknownCommand {command : Command} (hc : command = .quit ∨ command = .unknown) :
      Failure session command .unknownCommand

/-- Where the outcome is a failure, it is one of those listed, and nothing else came of it. -/
def Explains (session : Session) (command : Command) (outcome : Outcome) : Prop :=
  ∀ cause, outcome.answer = .error cause →
    session.Failure command cause ∧ outcome = session.fail cause

variable {session : Session} {command : Command}

theorem explains_ok (text : String) (session' : Session) (events : List Event) :
    session.Explains command ⟨.ok text, session', events⟩ :=
  fun _ h => nomatch h

theorem explains_fail {cause : Error} (h : session.Failure command cause) :
    session.Explains command (session.fail cause) := by
  intro cause' hc
  cases hc
  exact ⟨h, rfl⟩

theorem explains_createDatabase (session : Session) (name : String) :
    session.Explains (.createDatabase name) (session.createDatabase name) := by
  rw [createDatabase]
  split
  · next h => exact explains_fail (.invalidDatabase h)
  · next database hd =>
    obtain ⟨-, rfl⟩ := Database.create_eq_ok hd
    split
    · next hc =>
      obtain ⟨hm, rfl⟩ := Catalog.addDatabase_eq_error hc
      exact explains_fail (.databaseExists hm)
    · exact explains_ok _ _ _

theorem explains_useDatabase (session : Session) (name : String) :
    session.Explains (.useDatabase name) (session.useDatabase name) := by
  rw [useDatabase]
  split
  · next hd => exact explains_fail (.unknownDatabase (OrderedMap.get?_eq_none_iff.1 hd))
  · exact explains_ok _ _ _

theorem explains_listTables (session : Session) :
    session.Explains .listTables session.listTables := by
  rw [listTables]
  split
  · next hd => exact explains_fail (.noActiveDatabase rfl hd)
  · exact explains_ok _ _ _

theorem explains_createTable (session : Session) (definition : String) :
    session.Explains (.createTable definition) (session.createTable definition) := by
  rw [createTable]
  split
  · next hd => exact explains_fail (.noActiveDatabase rfl hd)
  · next database hd =>
    split
    · next h => exact explains_fail (.invalidDefinition h)
    · next table ht =>
      split
      · next hc =>
        obtain ⟨hm, rfl⟩ := Database.addTable_eq_error hc
        exact explains_fail (.tableExists hd ht hm)
      · exact explains_ok _ _ _

theorem explains_select (session : Session) (query : String) :
    session.Explains (.select query) (session.select query) := by
  rw [select]
  split
  · next hd => exact explains_fail (.noActiveDatabase rfl hd)
  · next database hd =>
    split
    · next h => exact explains_fail (.invalidQuery h)
    · next query hq =>
      split
      · next ht =>
        exact explains_fail (.unknownSelected hd hq (OrderedMap.get?_eq_none_iff.1 ht))
      · exact explains_ok _ _ _

theorem explains_insert (session : Session) (statement : String) :
    session.Explains (.insert statement) (session.insert statement) := by
  rw [insert]
  split
  · next hd => exact explains_fail (.noActiveDatabase rfl hd)
  · next database hd =>
    split
    · next h => exact explains_fail (.invalidInsertion h)
    · next insertion hi =>
      split
      · next ht =>
        exact explains_fail (.unknownTarget hd hi (OrderedMap.get?_eq_none_iff.1 ht))
      · exact explains_ok _ _ _

/-- A command that fails does so in one of the ways listed, and nothing else comes of it. -/
theorem failure_of_answer {cause : Error} (h : (session.execute command).answer = .error cause) :
    session.Failure command cause ∧ session.execute command = session.fail cause := by
  have hexplains : session.Explains command (session.execute command) := by
    cases command with
    | createDatabase name => exact explains_createDatabase session name
    | listDatabases => exact explains_ok _ _ _
    | useDatabase name => exact explains_useDatabase session name
    | listTables => exact explains_listTables session
    | createTable definition => exact explains_createTable session definition
    | select query => exact explains_select session query
    | insert statement => exact explains_insert session statement
    | quit => exact explains_fail (.unknownCommand (.inl rfl))
    | unknown => exact explains_fail (.unknownCommand (.inr rfl))
  exact hexplains cause h

end Session
end TableShell
