import TableShell.Error

/-
The naming rule for databases, tables and columns.
-/
namespace TableShell
namespace Name

def isNameChar (c : Char) : Bool :=
  c.isAlphanum || c == '_'

/-- One or more ASCII letters, digits and underscores. -/
def isValid (name : String) : Bool :=
  !name.toList.isEmpty && name.toList.all isNameChar

/-- Checks the name of a database or a table. -/
def check (name : String) : Except Error Unit :=
  if isValid name then .ok () else .error (.invalidName name)

def checkColumn (name : String) : Except Error Unit :=
  if isValid name then .ok () else .error (.invalidColumnName name)

theorem isValid_iff {name : String} :
    isValid name = true ↔ name.toList ≠ [] ∧ ∀ c ∈ name.toList, isNameChar c = true := by
  simp [isValid]

theorem check_eq_ok_iff {name : String} : check name = .ok () ↔ isValid name = true := by
  unfold check
  split <;> simp_all

theorem checkColumn_eq_ok_iff {name : String} :
    checkColumn name = .ok () ↔ isValid name = true := by
  unfold checkColumn
  split <;> simp_all

end Name
end TableShell
