import TableShell.Error
import TableShell.Text.Phrase

/-
The types a column can have.
-/
namespace TableShell

inductive DataType
  | int
  | varchar
deriving DecidableEq, Repr

namespace DataType

def text : DataType → String
  | int => "int"
  | varchar => "varchar"

/-- Reads a type, whatever the case of its letters. -/
def read (s : String) : Except Error DataType :=
  if Text.isPhrase "int".toList s.toList then .ok int
  else if Text.isPhrase "varchar".toList s.toList then .ok varchar
  else .error (.unsupportedType s)

theorem read_text (t : DataType) : read t.text = .ok t := by
  cases t <;> rfl

end DataType
end TableShell
