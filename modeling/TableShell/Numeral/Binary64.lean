import TableShell.Numeral.Decimal
import TableShell.Text.Phrase

/-
Double-precision numbers as far as reading, comparing and truncating them goes.

A finite double is a whole multiple of the least subnormal, `2 ^ -1074`, so it is kept as that
multiple and all the arithmetic below is exact. Rounding goes to the nearest double and breaks
ties to the even significand.
-/
namespace TableShell
namespace Numeral

inductive Binary64
  | finite (units : Int)
  | infinite (negative : Bool)
  | nan
deriving DecidableEq, Repr

/-- The whole number nearest to a quotient, the even one of two. -/
def roundQuotient (num den : Nat) : Nat :=
  let q := num / den
  let r := num % den
  if 2 * r < den then q else if den < 2 * r then q + 1 else q + q % 2

namespace Binary64

/-- How many of the least subnormals make up one. -/
def scale : Nat :=
  Nat.pow 2 1074

/-- The units of the double nearest to a quotient counted in units. From `2 ^ 53` on a significand
no longer holds every unit, and the spacing doubles with each binade. -/
def roundUnits (num den : Nat) : Nat :=
  let spacing := Nat.pow 2 ((num / den).log2 - 52)
  roundQuotient num (den * spacing) * spacing

/-- The double nearest to `± num / den`, infinite from `2 ^ 1024` on after rounding. -/
def ofQuotient (negative : Bool) (num den : Nat) : Binary64 :=
  let units := roundUnits (num * scale) den
  if units < Nat.pow 2 1024 * scale then finite (signed negative units) else infinite negative

def ofInt (n : Int) : Binary64 :=
  ofQuotient (n < 0) n.natAbs 1

/-- The double nearest to a decimal. Decimals from `10 ^ 309` on are infinite and those up to
`10 ^ -324` vanish, whatever their digits. Settling these first keeps the powers of ten below in
proportion to the digits, however large the exponent. -/
def ofDecimal (d : Decimal) : Binary64 :=
  if d.digits = 0 ∨ d.exponent + d.digits.log2 + 1 ≤ -324 then finite 0
  else if 309 ≤ d.exponent then infinite d.negative
  else ofQuotient d.negative (d.digits * Nat.pow 10 d.exponent.toNat)
      (Nat.pow 10 (-d.exponent).toNat)

/-- The double a whole text denotes: a decimal, or one of the words for infinity and for no
number. -/
def read? (s : List Char) : Option Binary64 :=
  let ⟨negative, word⟩ := takeSign s
  if Text.isPhrase "inf".toList word || Text.isPhrase "infinity".toList word then
    some (infinite negative)
  else if Text.isPhrase "nan".toList word then some nan
  else (Decimal.read? s).map ofDecimal

/-- Numeric equality: the zeros are equal, and what is no number equals nothing. -/
def eq : Binary64 → Binary64 → Bool
  | finite a, finite b => a == b
  | infinite s, infinite t => s == t
  | _, _ => false

/-- The part before the point, at the nearer bound where no word holds it. -/
def toInt64 : Binary64 → Int64
  | finite units => Int64.ofIntClamp (units.tdiv scale)
  | infinite negative => if negative then Int64.minValue else Int64.maxValue
  | nan => 0

end Binary64
end Numeral
end TableShell
