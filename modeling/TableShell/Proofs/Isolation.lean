import TableShell.Proofs.Channels
import TableShell.Proofs.Persistence

/-
Tables do not interfere.

`Session.view` is what one table of one database has of a session: the names of the databases, the
active one, and the table itself. What a command makes of a view is read off the view and the
command alone, so the commands that do not concern the table may be left out of a run.
-/
namespace TableShell

namespace Command

/-- The table that a statement is about, where the statement can be read. -/
def target? : Command → Option String
  | createTable definition => (Definition.readTable definition).toOption.map Table.name
  | insert statement => (Insertion.read statement).toOption.map Insertion.table
  | _ => none

/-- What a statement makes of the table that it is about. A definition creates it unless it is
there, and an insertion adds a row if it is. -/
def applyTo (stored : Option Table) : Command → Option Table
  | createTable definition => stored <|> (Definition.readTable definition).toOption
  | insert statement =>
    match Insertion.read statement with
    | .error _ => stored
    | .ok insertion => stored.map fun table => table.insert insertion.values
  | _ => stored

theorem target?_createTable_iff {definition name : String} :
    (createTable definition).target? = some name ↔
      ∃ table, Definition.readTable definition = .ok table ∧ table.name = name := by
  rw [target?]
  cases Definition.readTable definition <;> simp [Except.toOption]

theorem target?_insert_iff {statement name : String} :
    (insert statement).target? = some name ↔
      ∃ insertion, Insertion.read statement = .ok insertion ∧ insertion.table = name := by
  rw [target?]
  cases Insertion.read statement <;> simp [Except.toOption]

end Command

namespace Catalog

/-- A table of a database. -/
def table? (catalog : Catalog) (database table : String) : Option Table :=
  (catalog.database? database).bind fun stored => stored.table? table

variable {catalog : Catalog} {name database table : String}

theorem table?_of_database? {stored : Database} (h : catalog.database? database = some stored) :
    catalog.table? database table = stored.table? table := by
  rw [table?, h, Option.bind_some]

/-- A new database has no table, and where there is no database there is none either. -/
theorem table?_addDatabase (h : name ∉ catalog.databaseNames) :
    table? ⟨catalog.databases.insert name ⟨name, .empty⟩⟩ database table =
      catalog.table? database table := by
  rw [table?, database?, OrderedMap.get?_insert]
  split
  · next hn =>
    rw [table?, database?, hn, OrderedMap.get?_eq_none_iff.2 h]
    rfl
  · rfl

theorem table?_change {stored : Database} (h : catalog.database? name = some stored)
    (f : Database → Database) : (catalog.change name f).table? database table =
      if database = name then (f stored).table? table else catalog.table? database table := by
  rw [table?, database?, change, OrderedMap.get?_modify]
  split
  · next hn =>
    rw [hn, ← database?, h]
    rfl
  · rfl

end Catalog

/-- A session as far as it matters to one table. -/
@[ext]
structure View where
  active : Option String
  databases : List String
  stored : Option Table

namespace View

/-- What a command makes of the view of a table. -/
def step (database table : String) (view : View) (command : Command) : View where
  active :=
    match command with
    | .useDatabase name => if name ∈ view.databases then some name else view.active
    | _ => view.active
  databases :=
    match command with
    | .createDatabase name =>
      if Name.isValid name = true ∧ name ∉ view.databases then view.databases ++ [name]
      else view.databases
    | _ => view.databases
  stored :=
    if view.active = some database ∧ database ∈ view.databases ∧ command.target? = some table then
      command.applyTo view.stored
    else view.stored

/-- What a query on the table is answered while the database is active. -/
def answer (database : String) (view : View) (query : Query) : Except Error String :=
  if database ∈ view.databases then
    match view.stored with
    | none => .error (.unknownTable query.table)
    | some table => .ok (Row.printAll (table.select query.condition))
  else .error .noActiveDatabase

theorem stored_step (database table : String) (view : View) (command : Command) :
    (view.step database table command).stored =
      if view.active = some database ∧ database ∈ view.databases ∧
          command.target? = some table then
        command.applyTo view.stored
      else view.stored := rfl

theorem step_of_isReading {database table : String} {command : Command}
    (h : command.isReading = true) (view : View) : view.step database table command = view := by
  cases command with
  | listDatabases => exact View.ext rfl rfl (if_neg fun hc => nomatch hc.2.2)
  | listTables => exact View.ext rfl rfl (if_neg fun hc => nomatch hc.2.2)
  | select text => exact View.ext rfl rfl (if_neg fun hc => nomatch hc.2.2)
  | _ => exact absurd h Bool.false_ne_true

end View

namespace Session

def view (session : Session) (database table : String) : View :=
  ⟨session.active, session.catalog.databaseNames, session.catalog.table? database table⟩

/-- The command can matter to the table: it is about databases, or it is a statement about a table
of that name while the database is active. -/
def concerns (session : Session) (database table : String) : Command → Bool
  | .createDatabase _ | .useDatabase _ => true
  | command => session.active = some database && command.target? = some table

/-- The commands of a run that can matter to the table when they are run. -/
def concerning (database table : String) (session : Session) : List Command → List Command
  | [] => []
  | command :: commands =>
    let later := concerning database table (session.execute command).session commands
    if session.concerns database table command then command :: later else later

variable {session session' : Session} {command : Command} {text database table : String}

theorem session_execute_of_not_effect
    (h : ∀ text session', ¬ session.Effect command text session') :
    (session.execute command).session = session := by
  cases ha : (session.execute command).answer with
  | ok text => exact absurd (effect_of_answer ha) (h _ _)
  | error cause => exact session_execute_of_error ha

theorem stored_step_view {name : String} {stored : Database} (ha : session.active = some name)
    (hd : session.catalog.database? name = some stored) (command : Command) :
    ((session.view database table).step database table command).stored =
      if database = name then
        if command.target? = some table then command.applyTo (stored.table? table)
        else stored.table? table
      else session.catalog.table? database table := by
  rw [View.stored_step, view, ha]
  by_cases hn : database = name
  · subst hn
    have hm := Catalog.mem_databaseNames_iff.2 ⟨stored, hd⟩
    simp only [hm, true_and, if_true, Catalog.table?_of_database? hd]
  · have hne : ¬ some name = some database := fun h => hn (Option.some.inj h).symm
    simp only [hne, false_and, if_false, if_neg hn]

theorem view_of_effect (h : session.Effect command text session') :
    session'.view database table = (session.view database table).step database table command := by
  cases h with
  | @createDatabase name hn hnew =>
    have hnames : Catalog.databaseNames ⟨session.catalog.databases.insert name ⟨name, .empty⟩⟩ =
        session.catalog.databaseNames ++ [name] := OrderedMap.keys_insert_of_not_mem hnew _
    refine View.ext rfl ?_ ?_
    · exact hnames.trans (if_pos ⟨hn, hnew⟩).symm
    · exact (Catalog.table?_addDatabase hnew).trans (if_neg fun hc => nomatch hc.2.2).symm
  | listDatabases => exact (View.step_of_isReading rfl _).symm
  | useDatabase hm => exact View.ext (if_pos hm).symm rfl (if_neg fun hc => nomatch hc.2.2).symm
  | listTables hd => exact (View.step_of_isReading rfl _).symm
  | @createTable name definition stored created ha hd ht hnew =>
    refine View.ext rfl (Catalog.databaseNames_change _ _ _) ?_
    rw [stored_step_view ha hd, view, Catalog.table?_change hd, Database.table?,
      OrderedMap.get?_insert, Command.applyTo, ht]
    by_cases hname : table = created.name
    · have hnone : stored.table? table = none := OrderedMap.get?_eq_none_iff.2 (hname ▸ hnew)
      have htarget := Command.target?_createTable_iff.2 ⟨created, ht, hname.symm⟩
      rw [if_pos hname, if_pos htarget, hnone]
      rfl
    · have htarget : (Command.createTable definition).target? ≠ some table := by
        rw [Command.target?, ht]
        exact fun h => hname (Option.some.inj h).symm
      rw [if_neg hname, if_neg htarget]
      rfl
  | select hd hq ht => exact (View.step_of_isReading rfl _).symm
  | @insert name statement stored insertion grown ha hd hi ht =>
    refine View.ext rfl (Catalog.databaseNames_change _ _ _) ?_
    rw [stored_step_view ha hd, view, Catalog.table?_change hd, Database.table?, Database.insertRow,
      OrderedMap.get?_modify, Command.applyTo, hi, Command.target?, hi]
    simp only [Except.toOption, Option.map_some, Option.some.injEq, eq_comm (a := table)]
    rfl

/-- Where a command has no effect, the view says so: what the command would give is there, or what
it needs is not. -/
theorem step_view_of_not_effect (h : ∀ text session', ¬ session.Effect command text session') :
    (session.view database table).step database table command = session.view database table := by
  have hstored : (session.active = some database → database ∈ session.catalog.databaseNames →
      command.target? = some table →
        command.applyTo (session.catalog.table? database table) =
          session.catalog.table? database table) →
      ((session.view database table).step database table command).stored =
        session.catalog.table? database table := by
    intro hsame
    rw [View.stored_step]
    split
    · next hc => exact hsame hc.1 hc.2.1 hc.2.2
    · rfl
  cases command with
  | createDatabase name =>
    have hno : ¬ (Name.isValid name = true ∧ name ∉ session.catalog.databaseNames) :=
      fun hc => h _ _ (.createDatabase hc.1 hc.2)
    exact View.ext rfl (if_neg hno) (hstored fun _ _ ht => nomatch ht)
  | useDatabase name =>
    have hno : name ∉ session.catalog.databaseNames := fun hc => h _ _ (.useDatabase hc)
    exact View.ext (if_neg hno) rfl (hstored fun _ _ ht => nomatch ht)
  | createTable definition =>
    refine View.ext rfl rfl (hstored fun ha hm ht => ?_)
    obtain ⟨stored, hd⟩ := Catalog.mem_databaseNames_iff.1 hm
    obtain ⟨created, hr, rfl⟩ := Command.target?_createTable_iff.1 ht
    have hmem : created.name ∈ stored.tableNames :=
      Decidable.not_not.1 fun hnew => h _ _ (.createTable ha hd hr hnew)
    obtain ⟨kept, hk⟩ := Database.mem_tableNames_iff.1 hmem
    rw [Catalog.table?_of_database? hd, hk, Command.applyTo]
    rfl
  | insert statement =>
    refine View.ext rfl rfl (hstored fun ha hm ht => ?_)
    obtain ⟨stored, hd⟩ := Catalog.mem_databaseNames_iff.1 hm
    obtain ⟨insertion, hr, rfl⟩ := Command.target?_insert_iff.1 ht
    have hnone : stored.table? insertion.table = none :=
      Option.eq_none_iff_forall_ne_some.2 fun grown hg => h _ _ (.insert ha hd hr hg)
    rw [Catalog.table?_of_database? hd, hnone, Command.applyTo, hr]
    rfl
  | _ => exact View.ext rfl rfl (hstored fun _ _ ht => nomatch ht)

/-- A view goes its own way: what a command makes of it depends on nothing else in the session. -/
theorem view_execute (session : Session) (command : Command) :
    (session.execute command).session.view database table =
      (session.view database table).step database table command := by
  by_cases h : ∃ text session', session.Effect command text session'
  · obtain ⟨text, session', he⟩ := h
    rw [(execute_of_effect he).2]
    exact view_of_effect he
  · have hno : ∀ text session', ¬ session.Effect command text session' :=
      fun text session' he => h ⟨text, session', he⟩
    rw [session_execute_of_not_effect hno, step_view_of_not_effect hno]

/-- The table behind a command: what a statement about it makes of it, and else the same. -/
theorem table?_execute_eq (session : Session) (command : Command) :
    (session.execute command).session.catalog.table? database table =
      if session.active = some database ∧ database ∈ session.catalog.databaseNames ∧
          command.target? = some table then
        command.applyTo (session.catalog.table? database table)
      else session.catalog.table? database table :=
  congrArg View.stored (view_execute session command)

theorem view_run (session : Session) (commands : List Command) :
    (session.run commands).view database table =
      commands.foldl (View.step database table) (session.view database table) := by
  induction commands generalizing session with
  | nil => rfl
  | cons command commands ih =>
    rw [run, List.foldl_cons, ← run, ih, view_execute, List.foldl_cons]

theorem step_view_of_not_concerns (h : session.concerns database table command = false) :
    (session.view database table).step database table command = session.view database table := by
  have hstored : session.concerns database table command =
      (session.active = some database && command.target? = some table : Bool) →
      ((session.view database table).step database table command).stored =
        session.catalog.table? database table := by
    intro hc
    rw [h, eq_comm, Bool.and_eq_false_imp] at hc
    refine if_neg fun hs => ?_
    exact absurd (hc (decide_eq_true hs.1)) (by simp [hs.2.2])
  cases command with
  | createDatabase name => exact absurd h.symm Bool.false_ne_true
  | useDatabase name => exact absurd h.symm Bool.false_ne_true
  | _ => exact View.ext rfl rfl (hstored rfl)

/-- The commands that do not concern a table can be left out. -/
theorem foldl_step_concerning (session : Session) (commands : List Command) :
    (session.concerning database table commands).foldl (View.step database table)
        (session.view database table) =
      commands.foldl (View.step database table) (session.view database table) := by
  induction commands generalizing session with
  | nil => rfl
  | cons command commands ih =>
    rw [concerning, List.foldl_cons, ← view_execute, ← ih]
    split
    · rw [List.foldl_cons, view_execute]
    · next h => rw [view_execute, step_view_of_not_concerns (by simpa using h)]

theorem answer_select_eq_view (ha : session.active = some database) {query : Query}
    (hq : Query.read text = .ok query) :
    (session.execute (.select text)).answer =
      (session.view database query.table).answer database query := by
  cases hd : session.catalog.database? database with
  | none =>
    have hm : database ∉ session.catalog.databaseNames := OrderedMap.get?_eq_none_iff.1 hd
    simp only [execute, select, database?, ha, Option.bind_some, hd]
    exact (if_neg hm).symm
  | some stored =>
    have hm := Catalog.mem_databaseNames_iff.2 ⟨stored, hd⟩
    simp only [execute, select, database?, ha, Option.bind_some, hd, hq]
    refine Eq.trans ?_ (if_pos hm).symm
    rw [view, Catalog.table?_of_database? hd]
    cases stored.table? query.table <;> rfl

/-- A table is what the commands that concern it have made of it: without the others the run ends
with the same table, or without one as before. So runs that agree in these commands give a query on
the table the same answer while its database is active, at once and after any further commands. -/
theorem run_concerning (database table : String) (commands : List Command) :
    (empty.run commands).catalog.table? database table =
        (empty.run (empty.concerning database table commands)).catalog.table? database table ∧
      ∀ commands', empty.concerning database table commands' =
          empty.concerning database table commands →
        ∀ further text query, Query.read text = .ok query → query.table = table →
          let session := (empty.run commands).run further
          let session' := (empty.run commands').run further
          session'.active = session.active ∧
            (session.active = some database →
              (session'.execute (.select text)).answer =
                (session.execute (.select text)).answer) := by
  have hview : ∀ commands, (empty.run commands).view database table =
      (empty.run (empty.concerning database table commands)).view database table := by
    intro commands
    rw [view_run, view_run, foldl_step_concerning]
  refine ⟨congrArg View.stored (hview commands), ?_⟩
  rintro commands' hsame further text query hq rfl
  have hrun : (empty.run commands').view database query.table =
      (empty.run commands).view database query.table := by
    rw [hview commands', hview commands, hsame]
  have hfurther : ((empty.run commands').run further).view database query.table =
      ((empty.run commands).run further).view database query.table := by
    rw [view_run _ further, view_run _ further, hrun]
  have hactive : ((empty.run commands').run further).active =
      ((empty.run commands).run further).active := congrArg View.active hfurther
  refine ⟨hactive, fun ha => ?_⟩
  rw [answer_select_eq_view (hactive.trans ha) hq, answer_select_eq_view ha hq, hfurther]

/-- A table of one name in two databases. Leaving out what happens to the other one, a table beside
it, and what fails, seven commands remain of twelve. -/
theorem run_concerning_homonyms :
    let commands : List Command := [.createDatabase "a", .createDatabase "b", .useDatabase "a",
      .createTable "t (n int)", .createTable "u (n int)", .useDatabase "b",
      .createTable "t (s varchar)", .insert "insert into t (s) values ('x')", .listTables,
      .useDatabase "a", .insert "insert into u (n) values (1)",
      .insert "insert into t (n) values (2)"]
    let kept : List Command := [.createDatabase "a", .createDatabase "b", .useDatabase "a",
      .createTable "t (n int)", .useDatabase "b", .useDatabase "a",
      .insert "insert into t (n) values (2)"]
    let further : List Command := [.useDatabase "b", .insert "insert into t (s) values (2)",
      .useDatabase "a"]
    empty.concerning "a" "t" commands = kept ∧
      (empty.run commands).catalog.table? "a" "t" = (empty.run kept).catalog.table? "a" "t" ∧
      (((empty.run kept).run further).execute (.select "t where n = 2")).answer =
        (((empty.run commands).run further).execute (.select "t where n = 2")).answer := by
  intro commands kept further
  have hkept : empty.concerning "a" "t" commands = kept := by decide +kernel
  have hsame : empty.concerning "a" "t" kept = empty.concerning "a" "t" commands := by
    rw [hkept]
    decide +kernel
  obtain ⟨hstored, hanswers⟩ := run_concerning "a" "t" commands
  refine ⟨hkept, hkept ▸ hstored, ?_⟩
  have hread : Query.read "t where n = 2" = .ok ⟨"t", some ⟨"n", "2"⟩⟩ := by decide +kernel
  have hactive : ((empty.run commands).run further).active = some "a" := by decide +kernel
  exact (hanswers kept hsame further "t where n = 2" _ hread rfl).2 hactive

end Session
end TableShell
