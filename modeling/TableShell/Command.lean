import TableShell.Text.Blank
import TableShell.Text.Phrase

/-
Commands, and how a line is recognised as one by the phrase it starts with.
-/
namespace TableShell

inductive Command
  | createDatabase (name : String)
  | listDatabases
  | useDatabase (name : String)
  | listTables
  | createTable (definition : String)
  | select (query : String)
  | insert (statement : String)
  | quit
  | unknown
deriving DecidableEq, Repr

namespace Command

open Text

/-- The form of a line that is the phrase alone. -/
def alone (phrase : String) (command : Command) (s : List Char) : Option Command :=
  if isPhrase phrase.toList s then some command else none

/-- The form of a line that starts with the phrase. The command is made of what stands behind it. -/
def behind (phrase : String) (command : List Char → Command) (s : List Char) : Option Command :=
  (strip? Char.toLower phrase.toList s).map command

/-- The forms of a trimmed line. Names are trimmed once more; statements keep their blanks, and an
insertion its phrase too. -/
def forms : List (List Char → Option Command) := [
  alone "quit" quit,
  alone "list databases" listDatabases,
  alone "list tables" listTables,
  behind "create database " fun r => createDatabase (String.ofList (trim r)),
  behind "use database " fun r => useDatabase (String.ofList (trim r)),
  behind "create table " fun r => createTable (String.ofList r),
  behind "select * from " fun r => select (String.ofList r),
  fun s => behind "insert into " (fun _ => insert (String.ofList s)) s]

def classify (line : String) : Command :=
  (forms.findSome? fun form => form (trim line.toList)).getD unknown

end Command
end TableShell
