/-
What can go wrong with a command, and the one line that says so.
-/
namespace TableShell

inductive Error
  | invalidName (name : String)
  | invalidColumnName (name : String)
  | databaseExists (name : String)
  | tableExists (name : String)
  | noColumns
  | missingType (column : String)
  | unsupportedType (type : String)
  | createTableSyntax
  | selectSyntax
  | insertSyntax
  | countMismatch
  | unknownCommand
  | noActiveDatabase
  | unknownDatabase (name : String)
  | unknownTable (name : String)
deriving DecidableEq, Repr

namespace Error

def message : Error → String
  | invalidName name => "Name " ++ name ++ " is invalid"
  | invalidColumnName name => "Column name " ++ name ++ " is invalid"
  | databaseExists name => "Database " ++ name ++ " already exists"
  | tableExists name => "Table " ++ name ++ " already exists"
  | noColumns => "No columns defined"
  | missingType column => "Column " ++ column ++ " has no data type"
  | unsupportedType type => "Type " ++ type ++ " is not supported"
  | createTableSyntax => "Create table syntax invalid"
  | selectSyntax => "Select syntax invalid"
  | insertSyntax => "Insert syntax invalid"
  | countMismatch => "Number of columns and values does not match"
  | unknownCommand => "Unknown command"
  | noActiveDatabase => "No active database"
  | unknownDatabase name => "Unknown database " ++ name
  | unknownTable name => "Table " ++ name ++ " does not exist"

/-- A name breaks the naming rule. -/
def isInvalidName : Error → Bool
  | invalidName _ | invalidColumnName _ => true
  | _ => false

/-- A table definition lacks its columns or a column its type. -/
def isInvalidDefinition : Error → Bool
  | noColumns | missingType _ => true
  | _ => false

end Error
end TableShell
