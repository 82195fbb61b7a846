import Mathlib.Algebra.GroupWithZero.Nat
import TableShell.Proofs.Isolation

/-
The store is append-only.

Databases, tables, rows, and the cells and marks of the columns are added at the end of what is
there, and what is there stays as it is. A command adds one row at most, and it is an insertion that
does, to the table it names in the active database.
-/
namespace TableShell

namespace Cells

/-- The later vector is of the same type and goes on where the earlier one ends. -/
inductive Grows : Cells → Cells → Prop
  | ints {ws ws' : Array Int64} (h : ws.toList <+: ws'.toList) : Grows (ints ws) (ints ws')
  | texts {ts ts' : Array String} (h : ts.toList <+: ts'.toList) : Grows (texts ts) (texts ts')

theorem grows_refl (cells : Cells) : cells.Grows cells := by
  cases cells with
  | ints ws => exact .ints (List.prefix_refl _)
  | texts ts => exact .texts (List.prefix_refl _)

theorem grows_trans {cells later last : Cells} (h : cells.Grows later) (h' : later.Grows last) :
    cells.Grows last := by
  cases h with
  | ints h => cases h' with | ints h' => exact .ints (h.trans h')
  | texts h => cases h' with | texts h' => exact .texts (h.trans h')

theorem grows_push (cells : Cells) (v : Value) : cells.Grows (cells.push v) := by
  cases cells with
  | ints ws =>
    have h : ∀ n, ws.toList <+: (ws.push n).toList := by
      intro n
      rw [Array.toList_push]
      exact List.prefix_append _ _
    cases v <;> exact .ints (h _)
  | texts ts =>
    have h : ∀ s, ts.toList <+: (ts.push s).toList := by
      intro s
      rw [Array.toList_push]
      exact List.prefix_append _ _
    cases v <;> exact .texts (h _)

end Cells

namespace Column

structure Grows (column later : Column) : Prop where
  name_eq : later.name = column.name
  type_eq : later.type = column.type
  cells_grow : column.cells.Grows later.cells
  nulls_prefix : column.nulls.toList <+: later.nulls.toList

theorem grows_refl (column : Column) : column.Grows column :=
  ⟨rfl, rfl, column.cells.grows_refl, List.prefix_refl _⟩

theorem grows_trans {column later last : Column} (h : column.Grows later)
    (h' : later.Grows last) : column.Grows last :=
  ⟨h'.name_eq.trans h.name_eq, h'.type_eq.trans h.type_eq,
    Cells.grows_trans h.cells_grow h'.cells_grow, h.nulls_prefix.trans h'.nulls_prefix⟩

theorem grows_push (column : Column) (value : Value) : column.Grows (column.push value) := by
  refine ⟨rfl, rfl, column.cells.grows_push _, ?_⟩
  rw [push, Array.toList_push]
  exact List.prefix_append _ _

/-- Columns grow each by itself. -/
theorem forall₂_grows_trans {columns later last : List Column}
    (h : List.Forall₂ Grows columns later) (h' : List.Forall₂ Grows later last) :
    List.Forall₂ Grows columns last := by
  induction h generalizing last with
  | nil => exact h'
  | cons h _ ih =>
    cases h' with
    | cons h' hs' => exact .cons (grows_trans h h') (ih hs')

end Column

namespace Table

/-- The later table has the name and the schema of the earlier one, and each column and the rows go
on where they ended. -/
structure Grows (table later : Table) : Prop where
  name_eq : later.name = table.name
  schema_eq : later.schema = table.schema
  rows_prefix : table.select none <+: later.select none
  columns_grow : List.Forall₂ Column.Grows table.columns later.columns

theorem grows_refl (table : Table) : table.Grows table :=
  ⟨rfl, rfl, List.prefix_refl _, List.forall₂_same.2 fun column _ => column.grows_refl⟩

theorem grows_trans (table later last : Table) (h : table.Grows later) (h' : later.Grows last) :
    table.Grows last :=
  ⟨h'.name_eq.trans h.name_eq, h'.schema_eq.trans h.schema_eq, h.rows_prefix.trans h'.rows_prefix,
    Column.forall₂_grows_trans h.columns_grow h'.columns_grow⟩

/-- The rows are the records, each as a map. -/
theorem select_none {table : Table} (h : table.WellFormed) :
    table.select none = table.records.map OrderedMap.ofList := by
  have hmap : ∀ row ∈ table.select none, OrderedMap.ofList row.entries = row :=
    fun row _ => OrderedMap.ext (OrderedMap.entries_ofList row.nodup)
  rw [← entries_select_none h, List.map_map]
  exact (List.map_id _).symm.trans (List.map_congr_left fun row hr => (hmap row hr).symm)

theorem select_none_insert {table : Table} (h : table.WellFormed) (given : OrderedMap Value) :
    ∃ row, (table.insert given).select none = table.select none ++ [row] := by
  rw [select_none h, select_none (insert_wellFormed h given), records_insert h, List.map_append]
  exact ⟨_, rfl⟩

theorem insert_grows {table : Table} (h : table.WellFormed) (given : OrderedMap Value) :
    table.Grows (table.insert given) := by
  refine ⟨rfl, rfl, ?_, ?_⟩
  · obtain ⟨row, hrows⟩ := select_none_insert h given
    exact ⟨[row], hrows.symm⟩
  · rw [insert, List.forall₂_map_right_iff]
    exact List.forall₂_same.2 fun column _ => column.grows_push _

end Table

/-- A table has no rows where it is defined. -/
theorem Definition.rowCount_readTable {definition : String} {table : Table}
    (h : readTable definition = .ok table) : table.rowCount = 0 := by
  rw [readTable] at h
  split at h
  · exact absurd h (by simp)
  · obtain ⟨-, -, schema, rfl⟩ := Table.create_eq_ok h
    rfl

namespace OrderedMap

variable {α : Type} {R : α → α → Prop} {m later last : OrderedMap α}

/-- The later map has further names only behind those of the earlier one, and each value grows. -/
structure Grows (m : OrderedMap α) (R : α → α → Prop) (later : OrderedMap α) : Prop where
  keys_prefix : m.keys <+: later.keys
  values_grow : m.Extends R later

theorem grows_refl (hr : ∀ value, R value value) : m.Grows R m :=
  ⟨List.prefix_refl _, extends_refl hr⟩

theorem grows_trans (ht : ∀ u v w, R u v → R v w → R u w) (h : m.Grows R later)
    (h' : later.Grows R last) : m.Grows R last :=
  ⟨h.keys_prefix.trans h'.keys_prefix, extends_trans ht h.values_grow h'.values_grow⟩

theorem grows_insert (hr : ∀ value, R value value) {key : String} (hk : key ∉ m.keys)
    (value : α) : m.Grows R (m.insert key value) := by
  refine ⟨?_, extends_insert hr hk value⟩
  rw [keys_insert_of_not_mem hk]
  exact List.prefix_append _ _

theorem grows_modify (hr : ∀ value, R value value) {key : String} {f : α → α}
    (hf : ∀ value, m.get? key = some value → R value (f value)) : m.Grows R (m.modify key f) := by
  have hkeys : m.keys ++ [] = (m.modify key f).keys :=
    (List.append_nil _).trans (keys_modify m key f).symm
  exact ⟨⟨[], hkeys⟩, extends_modify hr hf⟩

/-- A size taken of every value, summed up. -/
def total (size : α → Nat) (m : OrderedMap α) : Nat :=
  (m.values.map size).sum

theorem total_insert (size : α → Nat) {key : String} (hk : key ∉ m.keys) (value : α) :
    (m.insert key value).total size = m.total size + size value := by
  simp only [total, values, entries_insert_of_not_mem hk, List.map_append, List.map_cons,
    List.map_nil, List.sum_append, List.sum_singleton]

/-- A change counts once, since a name stands once. -/
theorem total_modify {size : α → Nat} {key : String} {value : α} (h : m.get? key = some value)
    {f : α → α} {n : Nat} (hf : size (f value) = size value + n) :
    (m.modify key f).total size = m.total size + n := by
  obtain ⟨es, hes⟩ := m
  simp only [total, values, modify]
  simp only [get?] at h
  induction es with
  | nil => exact absurd h (by simp)
  | cons e es ih =>
    rw [List.map_cons, List.nodup_cons] at hes
    rw [lookup_cons] at h
    by_cases hk : key = e.1
    · rw [if_pos hk, Option.some.injEq] at h
      have hrest : es.map (fun e => if e.1 = key then (e.1, f e.2) else e) = es := by
        refine (List.map_congr_left fun e' he' => ?_).trans (List.map_id es)
        have hne : e'.1 ≠ key := fun h' => hes.1 (List.mem_map.2 ⟨e', he', h'.trans hk⟩)
        rw [if_neg hne, id]
      simp only [List.map_cons, hrest, if_pos hk.symm, h, hf, List.sum_cons]
      omega
    · rw [if_neg hk] at h
      simp only [List.map_cons, if_neg (Ne.symm hk), List.sum_cons]
      have := ih hes.2 h
      omega

end OrderedMap

namespace Database

structure Grows (database later : Database) : Prop where
  name_eq : later.name = database.name
  tables_grow : database.tables.Grows Table.Grows later.tables

theorem grows_refl (database : Database) : database.Grows database :=
  ⟨rfl, OrderedMap.grows_refl Table.grows_refl⟩

theorem grows_trans (database later last : Database) (h : database.Grows later)
    (h' : later.Grows last) : database.Grows last :=
  ⟨h'.name_eq.trans h.name_eq,
    OrderedMap.grows_trans Table.grows_trans h.tables_grow h'.tables_grow⟩

theorem addTable_grows {database changed : Database} {table : Table}
    (h : database.addTable table = .ok changed) : database.Grows changed := by
  obtain ⟨hn, rfl⟩ := addTable_eq_ok h
  exact ⟨rfl, OrderedMap.grows_insert Table.grows_refl hn table⟩

theorem insertRow_grows {database : Database} (h : database.WellFormed) (name : String)
    (given : OrderedMap Value) : database.Grows (database.insertRow name given) := by
  have hmodify : database.tables.Grows Table.Grows
      (database.tables.modify name fun table => table.insert given) :=
    OrderedMap.grows_modify Table.grows_refl fun _ ht =>
      Table.insert_grows (wellFormed_of_table? h ht) given
  exact ⟨rfl, hmodify⟩

def rowTotal (database : Database) : Nat :=
  database.tables.total Table.rowCount

end Database

namespace Catalog

def Grows (catalog later : Catalog) : Prop :=
  catalog.databases.Grows Database.Grows later.databases

theorem grows_refl (catalog : Catalog) : catalog.Grows catalog :=
  OrderedMap.grows_refl Database.grows_refl

theorem grows_trans {catalog later last : Catalog} (h : catalog.Grows later)
    (h' : later.Grows last) : catalog.Grows last :=
  OrderedMap.grows_trans Database.grows_trans h h'

theorem change_grows {catalog : Catalog} {name : String} {f : Database → Database}
    (h : ∀ database, catalog.database? name = some database → database.Grows (f database)) :
    catalog.Grows (catalog.change name f) := by
  rw [Grows, change]
  exact OrderedMap.grows_modify Database.grows_refl h

/-- The number of all rows. -/
def rowTotal (catalog : Catalog) : Nat :=
  catalog.databases.total Database.rowTotal

theorem rowTotal_change {catalog : Catalog} {name : String} {database : Database}
    (h : catalog.database? name = some database) {f : Database → Database} {n : Nat}
    (hf : (f database).rowTotal = database.rowTotal + n) :
    (catalog.change name f).rowTotal = catalog.rowTotal + n :=
  OrderedMap.total_modify h hf

end Catalog

namespace Session

theorem step_grows {session session' : Session} (h : session.WellFormed)
    (hs : session.Step session') : session.catalog.Grows session'.catalog := by
  cases hs with
  | stay => exact Catalog.grows_refl _
  | createDatabase _ hc =>
    obtain ⟨hn, rfl⟩ := Catalog.addDatabase_eq_ok hc
    exact OrderedMap.grows_insert Database.grows_refl hn _
  | useDatabase _ => exact Catalog.grows_refl _
  | createTable _ hd _ hc =>
    refine Catalog.change_grows ?_
    intro database hd'
    rw [Option.some.inj (hd'.symm.trans hd)]
    exact Database.addTable_grows hc
  | insert _ _ _ _ =>
    refine Catalog.change_grows ?_
    intro database hd
    have hdatabase := Catalog.wellFormed_of_database? h.catalog_wellFormed hd
    exact Database.insertRow_grows hdatabase _ _

theorem run_grows {session : Session} (h : session.WellFormed) (commands : List Command) :
    session.catalog.Grows (session.run commands).catalog := by
  induction commands generalizing session with
  | nil => exact Catalog.grows_refl _
  | cons command commands ih =>
    have hs := execute_step session command
    exact Catalog.grows_trans (step_grows h hs) (ih (step_wellFormed h hs))

/-- The command is an insertion, and succeeds. -/
def inserts (session : Session) : Command → Bool
  | .insert statement => (session.execute (.insert statement)).answer.isOk
  | _ => false

theorem inserts_of_error {session : Session} {command : Command} {cause : Error}
    (h : (session.execute command).answer = .error cause) : session.inserts command = false := by
  cases command with
  | insert statement =>
    rw [inserts, h]
    rfl
  | _ => rfl

theorem rowTotal_of_effect {session session' : Session} {command : Command} {text : String}
    (h : session.Effect command text session') :
    session'.catalog.rowTotal =
      session.catalog.rowTotal + if session.inserts command then 1 else 0 := by
  cases h with
  | createDatabase hn hnew => exact OrderedMap.total_insert _ hnew _
  | listDatabases => rfl
  | useDatabase hm => rfl
  | listTables hd => rfl
  | createTable ha hd ht hnew =>
    refine Catalog.rowTotal_change hd ?_
    rw [Database.rowTotal, OrderedMap.total_insert _ hnew, Definition.rowCount_readTable ht]
    rfl
  | select hd hq ht => rfl
  | @insert name statement database insertion table ha hd hi ht =>
    have hok : session.inserts (.insert statement) = true :=
      isOk_execute_iff.2 ⟨_, _, .insert ha hd hi ht⟩
    rw [hok]
    exact Catalog.rowTotal_change hd
      (OrderedMap.total_modify ht (Table.rowCount_insert _ _))

theorem rowTotal_execute (session : Session) (command : Command) :
    (session.execute command).session.catalog.rowTotal =
      session.catalog.rowTotal + if session.inserts command then 1 else 0 := by
  cases ha : (session.execute command).answer with
  | ok text => exact rowTotal_of_effect (effect_of_answer ha)
  | error cause =>
    rw [session_execute_of_error ha, inserts_of_error ha]
    rfl

/-- A table that is there is the same behind a command, but for the one row that an insertion which
names it adds behind the others in the active database. -/
theorem table?_execute {session : Session} (hw : session.WellFormed) {database name : String}
    {table : Table} (h : session.catalog.table? database name = some table) (command : Command) :
    ∃ table', (session.execute command).session.catalog.table? database name = some table' ∧
      if session.inserts command = true ∧ session.active = some database ∧
          command.target? = some name then
        table'.rowCount = table.rowCount + 1 ∧
          ∃ row, table'.select none = table.select none ++ [row]
      else table' = table := by
  obtain ⟨stored, hd, ht⟩ := Option.bind_eq_some_iff.1 h
  rw [table?_execute_eq, h]
  simp only [Catalog.mem_databaseNames_iff.2 ⟨stored, hd⟩, true_and]
  by_cases hc : session.active = some database ∧ command.target? = some name
  · rw [if_pos hc]
    cases command with
    | createTable definition => exact ⟨table, rfl, rfl⟩
    | insert statement =>
      obtain ⟨insertion, hi, rfl⟩ := Command.target?_insert_iff.1 hc.2
      have hok : session.inserts (.insert statement) = true :=
        isOk_execute_iff.2 ⟨_, _, .insert hc.1 hd hi ht⟩
      have hdatabase := Catalog.wellFormed_of_database? hw.catalog_wellFormed hd
      have htable := Database.wellFormed_of_table? hdatabase ht
      refine ⟨table.insert insertion.values, ?_, ?_⟩
      · simp only [Command.applyTo, hi, Option.map_some]
      · rw [if_pos ⟨hok, hc⟩]
        exact ⟨Table.rowCount_insert _ _, Table.select_none_insert htable _⟩
    | _ => exact absurd hc.2.symm (Option.some_ne_none name)
  · refine ⟨table, if_neg hc, ?_⟩
    rw [if_neg fun hs => hc hs.2]

/-- Whatever commands follow, what is stored stays where it is, and further databases, tables, rows
and cells come behind. A single command adds a row exactly if it is an insertion that succeeds, and
then behind the rows of the table it names in the active database. -/
theorem reachable_grows {session : Session} (h : session.Reachable) :
    (∀ commands, session.catalog.Grows (session.run commands).catalog) ∧
      ∀ command,
        (session.execute command).session.catalog.rowTotal =
            session.catalog.rowTotal + (if session.inserts command then 1 else 0) ∧
          ∀ database name table, session.catalog.table? database name = some table →
            ∃ table',
              (session.execute command).session.catalog.table? database name = some table' ∧
              if session.inserts command = true ∧ session.active = some database ∧
                  command.target? = some name then
                table'.rowCount = table.rowCount + 1 ∧
                  ∃ row, table'.select none = table.select none ++ [row]
              else table' = table := by
  refine ⟨run_grows h.wellFormed, fun command => ⟨rowTotal_execute session command, ?_⟩⟩
  intro database name table ht
  exact table?_execute h.wellFormed ht command

/-- Tables of one name in two databases: the insertion adds to the one in the active database, and a
failing one adds to none. -/
theorem reachable_grows_homonyms :
    let session := (start .empty).run [.createDatabase "a", .useDatabase "a",
      .createTable "t (n int)", .createDatabase "b", .useDatabase "b", .createTable "t (s varchar)",
      .insert "insert into t (s) values ('x')"]
    let statement := "insert into t (s) values (NULL)"
    session.Reachable ∧
      session.catalog.Grows (session.run [.insert statement, .useDatabase "a",
        .insert "insert into u (n) values (1)", .createTable "u (n int)"]).catalog ∧
      (session.execute (.insert statement)).session.catalog.rowTotal = 2 ∧
      (session.execute (.insert statement)).session.catalog.table? "a" "t" =
        session.catalog.table? "a" "t" ∧
      ∃ table', (session.execute (.insert statement)).session.catalog.table? "b" "t" = some table' ∧
        table'.rowCount = 2 ∧
        ∃ row, table'.select none = [.ofList [("s", .text "x")], row] := by
  intro session statement
  have hreachable : session.Reachable := ⟨.empty, .empty, _, rfl⟩
  obtain ⟨hgrows, hcommand⟩ := reachable_grows hreachable
  obtain ⟨htotal, htables⟩ := hcommand (.insert statement)
  obtain ⟨table, ha⟩ : ∃ table, session.catalog.table? "a" "t" = some table :=
    Option.isSome_iff_exists.1 (by decide +kernel)
  obtain ⟨grown, hb⟩ : ∃ grown, session.catalog.table? "b" "t" = some grown :=
    Option.isSome_iff_exists.1 (by decide +kernel)
  have hgrown : (session.catalog.table? "b" "t").map (fun t => (t.rowCount, t.select none)) =
      some (1, [.ofList [("s", .text "x")]]) := by decide +kernel
  rw [hb] at hgrown
  obtain ⟨hcount, hrows⟩ := Prod.mk.inj (Option.some.inj hgrown)
  refine ⟨hreachable, hgrows _, htotal.trans (by decide +kernel), ?_, ?_⟩
  · obtain ⟨table', ht', hsame⟩ := htables "a" "t" table ha
    rw [if_neg (by decide +kernel)] at hsame
    rw [ht', ha, hsame]
  · obtain ⟨table', ht', hmore⟩ := htables "b" "t" grown hb
    rw [if_pos (by decide +kernel), hcount, hrows] at hmore
    exact ⟨table', ht', hmore⟩

end Session
end TableShell
