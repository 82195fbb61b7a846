import TableShell.OrderedMap
import TableShell.Value

/-
Rows as they are taken out of a table, and their printing.
-/
namespace TableShell

abbrev Row := OrderedMap Value

namespace Row

/-- A cell as it is printed: a text stands in single quotes, which it may itself contain. -/
def printCell : Value → String
  | .text s => "\x27" ++ s ++ "\x27"
  | v => v.display

def print (row : Row) : String :=
  ", ".intercalate (row.values.map printCell)

/-- Prints a line of column names, taken from the first row, and a line for each row. -/
def printAll : List Row → String
  | [] => "No rows"
  | row :: rows =>
    "\n".intercalate (", ".intercalate row.keys :: (row :: rows).map print)

end Row
end TableShell
