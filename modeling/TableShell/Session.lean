import TableShell.Catalog
import TableShell.Command
import TableShell.Journal
import TableShell.Statement.Definition
import TableShell.Statement.Insertion
import TableShell.Statement.Query

/-
Sessions: a catalog and the name of the active database, and what each command does to them.
-/
namespace TableShell

structure Session where
  catalog : Catalog
  active : Option String
deriving DecidableEq

/-- What came of a command: its answer or the cause of its failure, the session behind it, and the
events for the journal in order. -/
structure Outcome where
  answer : Except Error String
  session : Session
  events : List Event

/-- An outcome as the user sees it: one text, whether the command succeeded or failed. -/
structure Reply where
  text : String
  session : Session
  events : List Event

namespace Session

def start (catalog : Catalog) : Session :=
  ⟨catalog, none⟩

def empty : Session :=
  start .empty

/-- The active database. A name that the catalog lacks counts as none. -/
def database? (session : Session) : Option Database :=
  session.active.bind session.catalog.database?

def fail (session : Session) (cause : Error) : Outcome :=
  ⟨.error cause, session, []⟩

def enumerate (names : List String) (ifEmpty : String) : String :=
  if names.isEmpty then ifEmpty else ", ".intercalate names

def createDatabase (session : Session) (name : String) : Outcome :=
  match Database.create name with
  | .error e => session.fail e
  | .ok database =>
    match session.catalog.addDatabase database with
    | .error e => session.fail e
    | .ok catalog =>
      ⟨.ok ("Database " ++ database.name ++ " created"), { session with catalog },
        [.databaseCreated database.name]⟩

def listDatabases (session : Session) : Outcome :=
  ⟨.ok (enumerate session.catalog.databaseNames "No databases"), session, []⟩

def useDatabase (session : Session) (name : String) : Outcome :=
  match session.catalog.database? name with
  | none => session.fail (.unknownDatabase name)
  | some _ =>
    ⟨.ok ("Active database: " ++ name), { session with active := some name },
      [.databaseActivated name]⟩

def listTables (session : Session) : Outcome :=
  match session.database? with
  | none => session.fail .noActiveDatabase
  | some database =>
    ⟨.ok (enumerate database.tableNames ("No tables in database " ++ database.name)), session, []⟩

/-- Changes the active database. -/
def change (session : Session) (f : Database → Database) : Session :=
  match session.active with
  | none => session
  | some name => { session with catalog := session.catalog.change name f }

def createTable (session : Session) (definition : String) : Outcome :=
  match session.database? with
  | none => session.fail .noActiveDatabase
  | some database =>
    match Definition.readTable definition with
    | .error e => session.fail e
    | .ok table =>
      match database.addTable table with
      | .error e => session.fail e
      | .ok changed =>
        ⟨.ok ("Table " ++ table.name ++ " created"), session.change fun _ => changed,
          [.tableCreated database.name table.name]⟩

def select (session : Session) (query : String) : Outcome :=
  match session.database? with
  | none => session.fail .noActiveDatabase
  | some database =>
    match Query.read query with
    | .error e => session.fail e
    | .ok query =>
      match database.table? query.table with
      | none => session.fail (.unknownTable query.table)
      | some table =>
        let rows := table.select query.condition
        ⟨.ok (Row.printAll rows), session, [.rowsSelected table.name rows.length table.rowCount]⟩

def insert (session : Session) (statement : String) : Outcome :=
  match session.database? with
  | none => session.fail .noActiveDatabase
  | some database =>
    match Insertion.read statement with
    | .error e => session.fail e
    | .ok insertion =>
      match database.table? insertion.table with
      | none => session.fail (.unknownTable insertion.table)
      | some table =>
        ⟨.ok ("1 row inserted into " ++ insertion.table),
          session.change (·.insertRow insertion.table insertion.values),
          [.rowInserted table.name (table.rowCount + 1)]⟩

/-- Runs a command. To leave the dialogue is not up to the session, so it does not know that
command. -/
def execute (session : Session) : Command → Outcome
  | .createDatabase name => session.createDatabase name
  | .listDatabases => session.listDatabases
  | .useDatabase name => session.useDatabase name
  | .listTables => session.listTables
  | .createTable definition => session.createTable definition
  | .select query => session.select query
  | .insert statement => session.insert statement
  | .quit | .unknown => session.fail .unknownCommand

/-- Runs a command and records its failure. -/
def respond (session : Session) (command : Command) : Reply :=
  let outcome := session.execute command
  match outcome.answer with
  | .ok text => ⟨text, outcome.session, outcome.events⟩
  | .error e => ⟨e.message, outcome.session, outcome.events ++ [.commandFailed e]⟩

/-- Runs a command line. -/
def process (session : Session) (line : String) : Reply :=
  session.respond (Command.classify line)

end Session
end TableShell
