import TableShell.Table
import TableShell.Text.Cut

/-
Table definitions: `name (column type, ...)`, with an optional `create table ` in front.

The clauses are those of the first group in parentheses, which runs from an opening parenthesis to
the next closing one. There may be no second group.
-/
namespace TableShell

structure Definition where
  name : String
  columns : List (String × String)
deriving DecidableEq, Repr

namespace Definition

open Text

/-- The text inside the first group in parentheses, and the text behind it. -/
def group? (s : List Char) : Option (List Char × List Char) :=
  (cut? (· == '(') s).bind fun (_, s) => cut? (· == ')') s

/-- The clauses of a group, trimmed, without the blank ones. -/
def clauses (block : List Char) : List (List Char) :=
  ((block.splitOn ',').map trim).filter fun clause => !clause.isEmpty

/-- The column and the type of a trimmed clause, which is parted at its last blank. -/
def readClause (clause : List Char) : Except Error (String × String) :=
  match cutLast? isBlank clause with
  | none => .error (.missingType (String.ofList clause))
  | some (column, type) => .ok (String.ofList (trim column), String.ofList type)

def readClauses : List (List Char) → Except Error (List (String × String))
  | [] => .ok []
  | clause :: clauses =>
    match readClause clause with
    | .error e => .error e
    | .ok column =>
      match readClauses clauses with
      | .error e => .error e
      | .ok columns => .ok (column :: columns)

def read (text : String) : Except Error Definition :=
  let s := text.toList
  let s := (strip? Char.toLower "create table ".toList (trimStart s)).getD s
  let name := String.ofList (trim (s.takeWhile (· != '(')))
  match group? s with
  | none => .ok ⟨name, []⟩
  | some (block, rest) =>
    if (group? rest).isSome then .error .createTableSyntax
    else
      match readClauses (clauses block) with
      | .error e => .error e
      | .ok columns => .ok ⟨name, columns⟩

def create (definition : Definition) : Except Error Table :=
  Table.create definition.name definition.columns

/-- The table that a text defines. -/
def readTable (text : String) : Except Error Table :=
  match read text with
  | .error e => .error e
  | .ok definition => definition.create

end Definition
end TableShell
