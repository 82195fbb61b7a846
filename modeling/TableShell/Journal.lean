import TableShell.Error
import TableShell.Numeral.Integer

/-
The journal: what a session records of the commands it runs.
-/
namespace TableShell

inductive Level
  | info
  | debug
deriving DecidableEq, Repr

inductive Event
  | databaseCreated (database : String)
  | databaseActivated (database : String)
  | tableCreated (database table : String)
  | rowInserted (table : String) (row : Nat)
  | rowsSelected (table : String) (found total : Nat)
  | commandFailed (cause : Error)
deriving DecidableEq, Repr

namespace Event

def level : Event → Level
  | databaseCreated _ | databaseActivated _ | tableCreated _ _ => .info
  | rowInserted _ _ | rowsSelected _ _ _ | commandFailed _ => .debug

def numeral (n : Nat) : String :=
  String.ofList (Numeral.Integer.write n)

def message : Event → String
  | databaseCreated database => "database " ++ database ++ " created"
  | databaseActivated database => "active database switched to " ++ database
  | tableCreated database table => "database " ++ database ++ ": table " ++ table ++ " created"
  | rowInserted table row => "table " ++ table ++ ": row " ++ numeral row ++ " inserted"
  | rowsSelected table found total =>
    "table " ++ table ++ ": " ++ numeral found ++ " of " ++ numeral total ++ " rows selected"
  | commandFailed cause => "command failed: " ++ cause.message

end Event
end TableShell
