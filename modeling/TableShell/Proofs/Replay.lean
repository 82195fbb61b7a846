import Mathlib.Data.List.Induction
import TableShell.Proofs.AppendOnly
import TableShell.Proofs.Failures
import TableShell.Proofs.JournalText

/-
The journal is faithful.

Each line has its own record, which names what the command did, and a failure has its response. A
ledger has the names that a session has, in the same order, and the number of rows of each table.
What the records of a run say is entered into a ledger one record after the other, and the ledger
behind them is that of the session. No failing command has an entry.
-/
namespace TableShell

namespace OrderedMap

universe u

variable {α β : Type u}

/-- Applies a function to every value. -/
def map (f : α → β) (m : OrderedMap α) : OrderedMap β :=
  ⟨m.entries.map fun e => (e.1, f e.2), by
    rw [List.map_map]
    exact m.nodup⟩

theorem keys_map (f : α → β) (m : OrderedMap α) : (m.map f).keys = m.keys := by
  rw [keys, map, List.map_map]
  rfl

theorem get?_map (f : α → β) (m : OrderedMap α) (key : String) :
    (m.map f).get? key = (m.get? key).map f :=
  lookup_map m.entries f key

theorem map_insert (f : α → β) (m : OrderedMap α) (key : String) (value : α) :
    (m.insert key value).map f = (m.map f).insert key (f value) := by
  obtain ⟨es, hes⟩ := m
  refine ext ?_
  simp only [map, insert]
  clear hes
  induction es with
  | nil => rfl
  | cons e es ih =>
    rw [put, List.map_cons, put]
    split
    · rfl
    · rw [List.map_cons, ih]

/-- A change of the value under a name is seen behind a function that maps it to a change. -/
theorem map_modify {f : α → β} {m : OrderedMap α} {key : String} {g : α → α} (g' : β → β)
    (h : ∀ value, m.get? key = some value → f (g value) = g' (f value)) :
    (m.modify key g).map f = (m.map f).modify key g' := by
  refine ext ?_
  simp only [map, modify, List.map_map]
  refine List.map_congr_left fun e he => ?_
  simp only [Function.comp_apply]
  split
  · next hk => rw [h e.2 (hk ▸ get?_eq_some_iff.2 he)]
  · rfl

end OrderedMap

/-- The databases and tables by name in the order of creation, each table with the number of its
rows, and the active database. -/
structure Ledger where
  databases : OrderedMap (OrderedMap Nat)
  active : Option String
deriving DecidableEq

namespace Ledger

def empty : Ledger :=
  ⟨.empty, none⟩

/-- The number of rows of a table in the active database. -/
def rowCount? (ledger : Ledger) (table : String) : Option Nat :=
  (ledger.active.bind ledger.databases.get?).bind (·.get? table)

/-- The record of a row does not name the database: it is the active one. -/
def enter (ledger : Ledger) : Event → Ledger
  | .databaseCreated database =>
    { ledger with databases := ledger.databases.insert database .empty }
  | .databaseActivated database => { ledger with active := some database }
  | .tableCreated database table =>
    { ledger with databases := ledger.databases.modify database (·.insert table 0) }
  | .rowInserted table row =>
    match ledger.active with
    | none => ledger
    | some database =>
      { ledger with databases := ledger.databases.modify database (·.modify table fun _ => row) }
  | .rowsSelected _ _ _ | .commandFailed _ => ledger

theorem enter_rowInserted {ledger : Ledger} {database : String}
    (h : ledger.active = some database) (table : String) (row : Nat) :
    ledger.enter (.rowInserted table row) =
      { ledger with
        databases := ledger.databases.modify database (·.modify table fun _ => row) } := by
  rw [enter, h]

/-- Enters what the records say. -/
def replay (ledger : Ledger) (records : List String) : Ledger :=
  (records.filterMap Event.read?).foldl enter ledger

/-- The event is possible after what was entered: a name that is created is new, one that is used is
there, a row has the number behind that of the last one, and a selection has all rows at most. -/
def Admits (ledger : Ledger) : Event → Prop
  | .databaseCreated database => database ∉ ledger.databases.keys
  | .databaseActivated database => database ∈ ledger.databases.keys
  | .tableCreated database table =>
    ledger.active = some database ∧
      ∃ tables, ledger.databases.get? database = some tables ∧ table ∉ tables.keys
  | .rowInserted table row => ∃ count, ledger.rowCount? table = some count ∧ row = count + 1
  | .rowsSelected table found total => ledger.rowCount? table = some total ∧ found ≤ total
  | .commandFailed _ => True

theorem replay_message (ledger : Ledger) {event : Event} (h : event.Named) :
    ledger.replay [event.message] = ledger.enter event := by
  rw [replay, List.filterMap_cons, Event.read?_message h]
  cases event <;> rfl

theorem replay_append (ledger : Ledger) (records later : List String) :
    ledger.replay (records ++ later) = (ledger.replay records).replay later := by
  rw [replay, List.filterMap_append, List.foldl_append]
  rfl

theorem replay_messages {events : List Event} (h : ∀ event ∈ events, event.Named)
    (ledger : Ledger) : ledger.replay (events.map Event.message) = events.foldl enter ledger := by
  induction events generalizing ledger with
  | nil => rfl
  | cons event events ih =>
    rw [List.forall_mem_cons] at h
    rw [List.map_cons, ← List.singleton_append, replay_append, replay_message ledger h.1, ih h.2]
    rfl

end Ledger

/-- The number of rows of each table. -/
def Database.rowCounts (database : Database) : OrderedMap Nat :=
  database.tables.map Table.rowCount

theorem Table.length_select_le (table : Table) (condition : Option Condition) :
    (table.select condition).length ≤ table.rowCount := by
  calc (table.select condition).length
      ≤ _ := List.length_filterMap_le _ _
    _ ≤ (List.range table.rowCount).length := List.length_filter_le _ _
    _ = table.rowCount := List.length_range

namespace Session

def ledger (session : Session) : Ledger :=
  ⟨session.catalog.databases.map Database.rowCounts, session.active⟩

variable {session session' : Session} {command : Command} {text : String} {cause : Error}

theorem rowCount?_ledger {database : Database} (hd : session.database? = some database)
    {table : Table} {name : String} (ht : database.table? name = some table) :
    session.ledger.rowCount? name = some table.rowCount := by
  obtain ⟨active, ha, hd⟩ := database?_eq_some_iff.1 hd
  have hcounts : session.ledger.databases.get? active = some database.rowCounts :=
    (OrderedMap.get?_map _ _ _).trans (congrArg _ hd)
  rw [Ledger.rowCount?, show session.ledger.active = some active from ha, Option.bind_some,
    hcounts, Option.bind_some, Database.rowCounts, OrderedMap.get?_map]
  exact congrArg _ ht

theorem ledger_createDatabase {name : String} :
    ledger { session with catalog := ⟨session.catalog.databases.insert name ⟨name, .empty⟩⟩ } =
      session.ledger.enter (.databaseCreated name) := by
  rw [ledger, OrderedMap.map_insert]
  rfl

theorem ledger_createTable {name : String} {database : Database}
    (hd : session.catalog.database? name = some database) {table : Table}
    (hrows : table.rowCount = 0) :
    ledger { session with catalog := session.catalog.change name fun _ =>
        { database with tables := database.tables.insert table.name table } } =
      session.ledger.enter (.tableCreated name table.name) := by
  have hcounts : ∀ value, session.catalog.databases.get? name = some value →
      Database.rowCounts { database with tables := database.tables.insert table.name table } =
        value.rowCounts.insert table.name 0 := by
    intro value hv
    rw [Option.some.inj (hv.symm.trans hd), Database.rowCounts, OrderedMap.map_insert, hrows]
    rfl
  rw [ledger, Catalog.change, OrderedMap.map_modify (·.insert table.name 0) hcounts]
  rfl

theorem ledger_insert {name : String} {database : Database} (ha : session.active = some name)
    (hd : session.catalog.database? name = some database) {target : String} {table : Table}
    (ht : database.table? target = some table) (given : OrderedMap Value) :
    ledger { session with catalog := session.catalog.change name (·.insertRow target given) } =
      session.ledger.enter (.rowInserted target (table.rowCount + 1)) := by
  have htables : ∀ value, database.tables.get? target = some value →
      (value.insert given).rowCount = table.rowCount + 1 := by
    intro value hv
    rw [Option.some.inj (hv.symm.trans ht), Table.rowCount_insert]
  have hcounts : ∀ value, session.catalog.databases.get? name = some value →
      (value.insertRow target given).rowCounts =
        value.rowCounts.modify target fun _ => table.rowCount + 1 := by
    intro value hv
    rw [Option.some.inj (hv.symm.trans hd), Database.rowCounts, Database.insertRow,
      OrderedMap.map_modify (fun _ => table.rowCount + 1) htables]
    rfl
  have hactive : session.ledger.active = some name := ha
  rw [Ledger.enter_rowInserted hactive, ledger, Catalog.change,
    OrderedMap.map_modify (·.modify target fun _ => table.rowCount + 1) hcounts]
  rfl

/-- The events lead from the ledger of the one session to that of the other. -/
structure Records (session : Session) (events : List Event) (session' : Session) : Prop where
  named : ∀ event ∈ events, event.Named
  admitted : ∀ event ∈ events, session.ledger.Admits event
  entered : events.foldl Ledger.enter session.ledger = session'.ledger

theorem records_nil (session : Session) : session.Records [] session :=
  ⟨nofun, nofun, rfl⟩

theorem records_singleton {event : Event} (hn : event.Named) (ha : session.ledger.Admits event)
    (he : session'.ledger = session.ledger.enter event) : session.Records [event] session' :=
  ⟨List.forall_mem_singleton.2 hn, List.forall_mem_singleton.2 ha, he.symm⟩

/-! ### The events of commands that succeed -/

section

variable {name definition statement : String} {database : Database} {table : Table}

theorem events_createDatabase (hn : Name.isValid name = true)
    (hnew : name ∉ session.catalog.databaseNames) :
    (session.execute (.createDatabase name)).events = [.databaseCreated name] := by
  have hc : session.catalog.addDatabase ⟨name, .empty⟩ = .ok _ :=
    Catalog.addDatabase_of_not_mem hnew
  simp only [execute, createDatabase, Database.create_of_isValid hn, hc]

theorem events_useDatabase (hm : name ∈ session.catalog.databaseNames) :
    (session.execute (.useDatabase name)).events = [.databaseActivated name] := by
  obtain ⟨database, hd⟩ := Catalog.mem_databaseNames_iff.1 hm
  simp only [execute, useDatabase, hd]

theorem events_listTables (hd : session.database? = some database) :
    (session.execute .listTables).events = [] := by
  simp only [execute, listTables, hd]

theorem events_createTable (hw : session.WellFormed) (ha : session.active = some name)
    (hd : session.catalog.database? name = some database)
    (ht : Definition.readTable definition = .ok table) (hnew : table.name ∉ database.tableNames) :
    (session.execute (.createTable definition)).events = [.tableCreated name table.name] := by
  have hactive := database?_eq_some_iff.2 ⟨name, ha, hd⟩
  have hname := (OrderedMap.keyed_get? hw.catalog_wellFormed.databases_keyed hd).1
  simp only [execute, createTable, hactive, ht, Database.addTable_of_not_mem hnew, hname]

theorem events_select {query : Query} (hw : session.WellFormed)
    (hd : session.database? = some database) (hq : Query.read statement = .ok query)
    (ht : database.table? query.table = some table) :
    (session.execute (.select statement)).events =
      [.rowsSelected query.table (table.select query.condition).length table.rowCount] := by
  have hname := (OrderedMap.keyed_get? (wellFormed_of_database? hw hd).tables_keyed ht).1
  simp only [execute, select, hd, hq, ht, hname]

theorem events_insert {insertion : Insertion} (hw : session.WellFormed)
    (hd : session.database? = some database) (hi : Insertion.read statement = .ok insertion)
    (ht : database.table? insertion.table = some table) :
    (session.execute (.insert statement)).events =
      [.rowInserted insertion.table (table.rowCount + 1)] := by
  have hname := (OrderedMap.keyed_get? (wellFormed_of_database? hw hd).tables_keyed ht).1
  simp only [execute, insert, hd, hi, ht, hname]

end

/-- The records of a command that succeeds in the session: one that names what was created, put to
use, inserted or selected, with the number of rows where it is about rows, and none of a listing. -/
def Announces (session : Session) (command : Command) (records : List String) : Prop :=
  match command with
  | .createDatabase name => records = ["database " ++ name ++ " created"]
  | .useDatabase name => records = ["active database switched to " ++ name]
  | .createTable definition => ∃ database table, session.active = some database ∧
      Definition.readTable definition = .ok table ∧
      records = ["database " ++ database ++ ": table " ++ table.name ++ " created"]
  | .insert statement => ∃ insertion table, Insertion.read statement = .ok insertion ∧
      session.table? insertion.table = some table ∧
      records = ["table " ++ insertion.table ++ ": row " ++ toString (table.rowCount + 1) ++
        " inserted"]
  | .select text => ∃ query table, Query.read text = .ok query ∧
      session.table? query.table = some table ∧
      records = ["table " ++ query.table ++ ": " ++
        toString (table.select query.condition).length ++ " of " ++ toString table.rowCount ++
        " rows selected"]
  | .listDatabases | .listTables => records = []
  | .quit | .unknown => False

theorem announces_of_effect (hw : session.WellFormed) (h : session.Effect command text session') :
    session.Announces command ((session.execute command).events.map Event.message) := by
  cases h with
  | createDatabase hn hnew =>
    rw [events_createDatabase hn hnew]
    rfl
  | listDatabases => rfl
  | useDatabase hm =>
    rw [events_useDatabase hm]
    rfl
  | listTables hd =>
    rw [events_listTables hd]
    rfl
  | createTable ha hd ht hnew =>
    rw [events_createTable hw ha hd ht hnew]
    exact ⟨_, _, ha, ht, rfl⟩
  | @select statement database query table hd hq ht =>
    rw [events_select hw hd hq ht]
    refine ⟨query, table, hq, Option.bind_eq_some_iff.2 ⟨database, hd, ht⟩, ?_⟩
    rw [List.map_singleton, Event.message_rowsSelected]
  | @insert name statement database insertion table ha hd hi ht =>
    have hactive := database?_eq_some_iff.2 ⟨name, ha, hd⟩
    rw [events_insert hw hactive hi ht]
    refine ⟨insertion, table, hi, Option.bind_eq_some_iff.2 ⟨database, hactive, ht⟩, ?_⟩
    rw [List.map_singleton, Event.message_rowInserted]

theorem records_of_effect (hw : session.WellFormed) (h : session.Effect command text session') :
    session.Records (session.execute command).events session' := by
  have hcatalog := hw.catalog_wellFormed
  cases h with
  | createDatabase hn hnew =>
    rw [events_createDatabase hn hnew]
    refine records_singleton hn ?_ ledger_createDatabase
    rw [Ledger.Admits, ledger, OrderedMap.keys_map]
    exact hnew
  | listDatabases => exact records_nil session
  | useDatabase hm =>
    rw [events_useDatabase hm]
    refine records_singleton (hcatalog.names_valid _ hm) ?_ rfl
    rw [Ledger.Admits, ledger, OrderedMap.keys_map]
    exact hm
  | listTables hd =>
    rw [events_listTables hd]
    exact records_nil session
  | @createTable name definition database table ha hd ht hnew =>
    rw [events_createTable hw ha hd ht hnew]
    have hdatabase := hcatalog.names_valid name (Catalog.mem_databaseNames_iff.2 ⟨database, hd⟩)
    have htable := (Definition.readTable_wellFormed ht).name_valid
    have hadmits : session.ledger.Admits (.tableCreated name table.name) := by
      refine ⟨ha, database.rowCounts, (OrderedMap.get?_map _ _ _).trans (congrArg _ hd), ?_⟩
      rw [Database.rowCounts, OrderedMap.keys_map]
      exact hnew
    exact records_singleton ⟨hdatabase, htable⟩ hadmits
      (ledger_createTable hd (Definition.rowCount_readTable ht))
  | @select statement database query table hd hq ht =>
    rw [events_select hw hd hq ht]
    have hvalid := isValid_of_table? hw (Option.bind_eq_some_iff.2 ⟨database, hd, ht⟩)
    exact records_singleton hvalid ⟨rowCount?_ledger hd ht, table.length_select_le _⟩ rfl
  | @insert name statement database insertion table ha hd hi ht =>
    have hactive := database?_eq_some_iff.2 ⟨name, ha, hd⟩
    rw [events_insert hw hactive hi ht]
    have hvalid := isValid_of_table? hw (Option.bind_eq_some_iff.2 ⟨database, hactive, ht⟩)
    have hadmits : session.ledger.Admits (.rowInserted insertion.table (table.rowCount + 1)) :=
      ⟨table.rowCount, rowCount?_ledger hactive ht, rfl⟩
    exact records_singleton hvalid hadmits (ledger_insert ha hd ht _)

/-- A line that succeeds has the records of its command, and of a failure the one record is the
response. -/
def Reported (session : Session) (line : String) : Prop :=
  let records := (session.process line).events.map Event.message
  match (session.execute (Command.classify line)).answer with
  | .ok _ => session.Announces (Command.classify line) records
  | .error _ => records = ["command failed: " ++ (session.process line).text]

theorem events_process (hw : session.WellFormed) (line : String) :
    session.Reported line ∧
      session.Records (session.process line).events (session.process line).session := by
  rw [Reported, process, session_respond]
  cases ha : (session.execute (Command.classify line)).answer with
  | ok text =>
    have hevents : (session.respond (Command.classify line)).events =
        (session.execute (Command.classify line)).events := by
      rw [respond, ha]
    rw [hevents]
    have heffect := effect_of_answer ha
    exact ⟨announces_of_effect hw heffect, records_of_effect hw heffect⟩
  | error cause =>
    have hfail := (failure_of_answer ha).2
    have hevents : (session.respond (Command.classify line)).events = [.commandFailed cause] := by
      rw [respond, hfail]
      rfl
    rw [hevents, hfail, text_respond_of_error ha]
    exact ⟨rfl, records_singleton trivial trivial rfl⟩

end Session

/-- Lines with the events recorded of them. -/
def Channel.journaling : Channel String (List Event) where
  command := Command.classify
  reply session line := (session.process line).events
  next session line := (session.process line).session

namespace Session

/-- The records of a run of lines from the empty session. -/
def journal (lines : List String) : List String :=
  (Channel.journaling.record .empty lines).flatMap fun entry => entry.2.map Event.message

theorem journal_concat (lines : List String) (line : String) :
    journal (lines ++ [line]) =
      journal lines ++
        ((Channel.processing.run .empty lines).process line).events.map Event.message := by
  rw [journal, Channel.record_concat, List.flatMap_append, List.flatMap_singleton]
  rfl

theorem replay_journal (lines : List String) :
    Ledger.empty.replay (journal lines) = (Channel.processing.run .empty lines).ledger := by
  -- from the end, since the ledger of the lines before admits what the last line records
  induction lines using List.reverseRecOn with
  | nil => rfl
  | append_singleton lines line ih =>
    have hrecords := (events_process (Channel.processing_wellFormed lines) line).2
    have hrun : Channel.processing.run .empty (lines ++ [line]) =
        ((Channel.processing.run .empty lines).process line).session :=
      List.foldl_append
    rw [journal_concat, Ledger.replay_append, ih, Ledger.replay_messages hrecords.named,
      hrecords.entered, hrun]

/-- Whatever lines were run, the next one has the one record of what it did, none if it is a listing
that succeeds, and the response if it fails; the records so far give the ledger of the session, and
what is recorded next fits it. -/
theorem journal_faithful (lines : List String) (line : String) :
    let session := Channel.processing.run .empty lines
    session.Reported line ∧
      (∀ event ∈ (session.process line).events, session.ledger.Admits event) ∧
      Ledger.empty.replay (journal lines) = session.ledger := by
  intro session
  obtain ⟨hreported, hrecords⟩ := events_process (Channel.processing_wellFormed lines) line
  exact ⟨hreported, hrecords.admitted, replay_journal lines⟩

/-- A row goes to the table of the database that was put to use last. -/
example :
    Ledger.empty.replay (journal ["create database a", "create database b", "use database a",
      "create table t (n int)", "use database b", "create table t (n int)",
      "insert into t (n) values (1)"]) =
      ⟨.ofList [("a", .ofList [("t", 0)]), ("b", .ofList [("t", 1)])], some "b"⟩ := by
  decide +kernel

end Session
end TableShell
