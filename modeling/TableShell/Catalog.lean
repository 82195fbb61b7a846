import TableShell.Table

/-
Databases, which hold tables by name, and the catalog, which holds databases by name. Both keep
the order of creation.
-/
namespace TableShell

structure Database where
  name : String
  tables : OrderedMap Table
deriving DecidableEq

namespace Database

def create (name : String) : Except Error Database :=
  match Name.check name with
  | .error e => .error e
  | .ok () => .ok ⟨name, .empty⟩

def table? (database : Database) (name : String) : Option Table :=
  database.tables.get? name

def tableNames (database : Database) : List String :=
  database.tables.keys

def addTable (database : Database) (table : Table) : Except Error Database :=
  if database.tables.contains table.name then .error (.tableExists table.name)
  else .ok { database with tables := database.tables.insert table.name table }

/-- Adds a row to a table, where the database has it. -/
def insertRow (database : Database) (table : String) (given : OrderedMap Value) : Database :=
  { database with tables := database.tables.modify table (·.insert given) }

end Database

structure Catalog where
  databases : OrderedMap Database
deriving DecidableEq

namespace Catalog

def empty : Catalog :=
  ⟨.empty⟩

def database? (catalog : Catalog) (name : String) : Option Database :=
  catalog.databases.get? name

def databaseNames (catalog : Catalog) : List String :=
  catalog.databases.keys

def addDatabase (catalog : Catalog) (database : Database) : Except Error Catalog :=
  if catalog.databases.contains database.name then .error (.databaseExists database.name)
  else .ok ⟨catalog.databases.insert database.name database⟩

/-- Changes the database of the name, where the catalog has it. -/
def change (catalog : Catalog) (name : String) (f : Database → Database) : Catalog :=
  ⟨catalog.databases.modify name f⟩

end Catalog
end TableShell
