import TableShell.DataType
import TableShell.Numeral.Binary64
import TableShell.Text.Blank

/-
Cell values: their conversion to the type of a column, and their comparison with the text of a
condition.
-/
namespace TableShell

inductive Value
  | null
  | int (n : Int64)
  | text (s : String)
deriving DecidableEq, Repr

namespace Value

open Numeral

def isNull : Value → Bool
  | null => true
  | _ => false

def int? : Value → Option Int64
  | int n => some n
  | _ => none

def text? : Value → Option String
  | text s => some s
  | _ => none

def type? : Value → Option DataType
  | null => none
  | int _ => some .int
  | text _ => some .varchar

def display : Value → String
  | null => "NULL"
  | int n => String.ofList (Integer.write n.toInt)
  | text s => s

/-- The word a text is stored as in an integer column. An integer that a word holds is taken as it
is, any other decimal through the nearest double, and what is no decimal by its leading digits.
Nothing overflows: beyond the bounds the nearer bound is taken. -/
def readInt64 (s : String) : Int64 :=
  let s := Text.trim s.toList
  match Integer.readInt64? s with
  | some n => n
  | none =>
    match Decimal.read? s with
    | some d => (Binary64.ofDecimal d).toInt64
    | none => Integer.leadingInt64 s

def coerce : Value → DataType → Value
  | null, _ => null
  | int n, .int => int n
  | int n, .varchar => text (int n).display
  | text s, .int => int (readInt64 s)
  | text s, .varchar => text s

/-- Whether a word is the number a text denotes. A text that is no integer within the bounds is
compared as a double, and so is the word then. -/
def equalsNumeral (n : Int64) (s : String) : Bool :=
  let s := Text.trim s.toList
  match Integer.readInt64? s with
  | some m => m == n
  | none =>
    match Binary64.read? s with
    | some x => x.eq (.ofInt n.toInt)
    | none => false

/-- Whether a stored value meets a condition's text. Null meets none. -/
def looselyEquals : Value → String → Bool
  | null, _ => false
  | int n, raw => equalsNumeral n raw
  | text s, raw => s == raw

/-- The value may stand in a column of the type. -/
def HasType (v : Value) (t : DataType) : Prop :=
  v = null ∨ v.type? = some t

theorem coerce_hasType (v : Value) (t : DataType) : (v.coerce t).HasType t := by
  cases v <;> cases t <;> simp [coerce, HasType, type?]

/-- A value of the right type is stored as it is. -/
theorem coerce_of_hasType {v : Value} {t : DataType} (h : v.HasType t) : v.coerce t = v := by
  cases v <;> cases t <;> simp_all [coerce, HasType, type?]

end Value
end TableShell
