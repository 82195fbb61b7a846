import TableShell.DataType
import TableShell.Name
import TableShell.OrderedMap

/-
Schemas: the attributes of a table in order, and their declaration by name and type.
-/
namespace TableShell

structure Attribute where
  name : String
  type : DataType
deriving DecidableEq, Repr

abbrev Schema := List Attribute

namespace Schema

/-- The first name that breaks the naming rule. -/
def checkNames : List (String × String) → Except Error Unit
  | [] => .ok ()
  | (name, _) :: declared =>
    match Name.checkColumn name with
    | .error e => .error e
    | .ok () => checkNames declared

/-- Reads the types, up to the first that is none. -/
def readTypes : List (String × String) → Except Error Schema
  | [] => .ok []
  | (name, type) :: declared =>
    match DataType.read type with
    | .error e => .error e
    | .ok type =>
      match readTypes declared with
      | .error e => .error e
      | .ok schema => .ok (⟨name, type⟩ :: schema)

/-- The schema of a list of columns and types. A column declared again keeps its place and takes
its last type. There has to be a column; then all names are checked before any type is read. -/
def declare (columns : List (String × String)) : Except Error Schema :=
  let declared := (OrderedMap.ofList columns).entries
  if declared.isEmpty then .error .noColumns
  else
    match checkNames declared with
    | .error e => .error e
    | .ok () => readTypes declared

/-- A schema as it is declared. -/
def declaration (schema : Schema) : List (String × String) :=
  schema.map fun a => (a.name, a.type.text)

end Schema
end TableShell
