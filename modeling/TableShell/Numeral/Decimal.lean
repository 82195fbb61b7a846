import TableShell.Numeral.Integer

/-
Decimal numerals: digits with an optional point and an optional power of ten.
-/
namespace TableShell
namespace Numeral

/-- The number `± digits · 10 ^ exponent`. The sign is kept apart, so that a negative zero keeps
it. -/
structure Decimal where
  negative : Bool
  digits : Nat
  exponent : Int
deriving DecidableEq, Repr

namespace Decimal

/-- The digits behind a point, and the text behind them; none where no point comes first. -/
def takeFraction : List Char → List Char × List Char
  | [] => ([], [])
  | c :: s => if c = '.' then (s.takeWhile Char.isDigit, s.dropWhile Char.isDigit) else ([], c :: s)

/-- The power of ten a numeral ends with, zero where nothing is left to read. -/
def readExponent? : List Char → Option Int
  | [] => some 0
  | c :: s => if c = 'e' ∨ c = 'E' then Integer.read? s else none

/-- The decimal a whole text denotes. At least one digit stands before or behind the point. -/
def read? (s : List Char) : Option Decimal :=
  let ⟨negative, s⟩ := takeSign s
  let whole := s.takeWhile Char.isDigit
  let ⟨fraction, s⟩ := takeFraction (s.dropWhile Char.isDigit)
  if whole.isEmpty && fraction.isEmpty then none
  else
    (readExponent? s).map fun e =>
      ⟨negative, digitsValue (whole ++ fraction), e - fraction.length⟩

end Decimal
end Numeral
end TableShell
