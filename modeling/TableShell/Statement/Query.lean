import TableShell.Table
import TableShell.Text.Cut
import TableShell.Text.Fields
import TableShell.Text.Word

/-
Queries: `table` or `table where column = text`, with an optional `select * from ` in front.

The keyword is the first whole word `where`. The condition is parted at its first equals sign, and
its text loses the blanks and single quotes at its ends.
-/
namespace TableShell

structure Query where
  table : String
  condition : Option Condition
deriving DecidableEq, Repr

namespace Query

open Text

def isBlankOrQuote (c : Char) : Bool :=
  isBlank c || c == Fields.quoteChar

/-- The condition behind the keyword, where neither of its sides is empty. -/
def readCondition? (clause : List Char) : Option Condition :=
  let ⟨column, text⟩ := (cut? (· == '=') clause).getD (clause, [])
  let column := trim column
  let text := trimOf isBlankOrQuote text
  if column.isEmpty || text.isEmpty then none
  else some ⟨String.ofList column, String.ofList text⟩

def read (text : String) : Except Error Query :=
  let s := text.toList
  let s := (strip? Char.toLower "select * from ".toList (trimStart s)).getD s
  match findWord? "where".toList some false s with
  | none =>
    let table := trim s
    if table.isEmpty then .error .selectSyntax else .ok ⟨String.ofList table, none⟩
  | some (before, clause) =>
    let table := trim before
    if table.isEmpty then .error .selectSyntax
    else
      match readCondition? clause with
      | none => .error .selectSyntax
      | some condition => .ok ⟨String.ofList table, some condition⟩

end Query
end TableShell
