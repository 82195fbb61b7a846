import TableShell.Value

/-
One column of a table: its cells in a vector of the column's own type, and beside it a mark for
each cell that is null. A null cell holds a placeholder in the vector, so that the two stay of one
length.
-/
namespace TableShell

inductive Cells
  | ints (words : Array Int64)
  | texts (texts : Array String)
deriving DecidableEq

namespace Cells

def empty : DataType → Cells
  | .int => ints #[]
  | .varchar => texts #[]

def size : Cells → Nat
  | ints ws => ws.size
  | texts ts => ts.size

/-- What stands in the vector for a null cell. -/
def placeholder : DataType → Value
  | .int => .int 0
  | .varchar => .text ""

/-- Adds a value of the vector's type, or the placeholder. -/
def push : Cells → Value → Cells
  | ints ws, .int n => ints (ws.push n)
  | ints ws, _ => ints (ws.push 0)
  | texts ts, .text s => texts (ts.push s)
  | texts ts, _ => texts (ts.push "")

def get? : Cells → Nat → Option Value
  | ints ws, i => ws[i]?.map .int
  | texts ts, i => ts[i]?.map .text

def HasType : Cells → DataType → Prop
  | ints _, t => t = .int
  | texts _, t => t = .varchar

theorem empty_hasType (t : DataType) : (empty t).HasType t := by
  cases t <;> rfl

theorem push_hasType {cells : Cells} {t : DataType} (h : cells.HasType t) (v : Value) :
    (cells.push v).HasType t := by
  cases cells <;> cases v <;> exact h

theorem size_push (cells : Cells) (v : Value) : (cells.push v).size = cells.size + 1 := by
  cases cells <;> cases v <;> simp [push, size]

theorem get?_push_of_lt {cells : Cells} {i : Nat} (h : i < cells.size) (v : Value) :
    (cells.push v).get? i = cells.get? i := by
  have hi : i ≠ cells.size := by omega
  cases cells <;> cases v <;> simp_all [push, get?, size, Array.getElem?_push]

theorem get?_push_null {cells : Cells} {t : DataType} (h : cells.HasType t) :
    (cells.push .null).get? cells.size = some (placeholder t) := by
  cases cells <;> cases h <;> simp [push, get?, size, placeholder]

end Cells

structure Column where
  name : String
  type : DataType
  cells : Cells
  nulls : Array Bool
deriving DecidableEq

namespace Column

def empty (name : String) (type : DataType) : Column :=
  ⟨name, type, .empty type, #[]⟩

def size (column : Column) : Nat :=
  column.nulls.size

/-- Adds a value, converted to the type of the column. -/
def push (column : Column) (value : Value) : Column :=
  let value := value.coerce column.type
  { column with
    cells := column.cells.push value
    nulls := column.nulls.push value.isNull }

def get? (column : Column) (i : Nat) : Option Value :=
  column.nulls[i]?.bind fun null => if null then some .null else column.cells.get? i

/-- Whether the cell at `i` is there and meets a condition's text. -/
def meets (column : Column) (i : Nat) (raw : String) : Bool :=
  (column.get? i).any fun value => value.looselyEquals raw

/-- The vector is of the column's type and as long as the marks are, and a placeholder stands
wherever a mark does. -/
structure WellFormed (column : Column) : Prop where
  hasType : column.cells.HasType column.type
  size_eq : column.cells.size = column.size
  placeholder_eq : ∀ i, column.nulls[i]? = some true →
    column.cells.get? i = some (Cells.placeholder column.type)

theorem empty_wellFormed (name : String) (type : DataType) : (empty name type).WellFormed :=
  ⟨Cells.empty_hasType type, by cases type <;> rfl, by simp [empty]⟩

theorem size_push (column : Column) (value : Value) :
    (column.push value).size = column.size + 1 := by
  simp [push, size]

theorem push_wellFormed {column : Column} (h : column.WellFormed) (value : Value) :
    (column.push value).WellFormed where
  hasType := Cells.push_hasType h.hasType _
  size_eq := by
    rw [size_push, ← h.size_eq]
    exact Cells.size_push _ _
  placeholder_eq := by
    intro i hi
    simp only [push, Array.getElem?_push] at hi ⊢
    split at hi
    · next he =>
      have hn : value.coerce column.type = .null := by
        cases hv : value.coerce column.type <;> simp_all [Value.isNull]
      have hs : i = column.cells.size := he.trans h.size_eq.symm
      rw [hn, hs]
      exact Cells.get?_push_null h.hasType
    · have hs : i < column.cells.size := by
        rw [h.size_eq]
        exact (Array.getElem?_eq_some_iff.1 hi).1
      rw [Cells.get?_push_of_lt hs]
      exact h.placeholder_eq i hi

end Column
end TableShell
