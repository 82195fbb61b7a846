/-
Integers in decimal text, and their passage to 64-bit words.
-/
namespace TableShell
namespace Numeral

/-- Whether a minus sign comes first, and the text behind the sign if there is one. -/
def takeSign : List Char → Bool × List Char
  | [] => (false, [])
  | c :: s => if c = '-' then (true, s) else if c = '+' then (false, s) else (false, c :: s)

def signed (negative : Bool) (n : Nat) : Int :=
  if negative then -n else n

def digitsValue (ds : List Char) : Nat :=
  Nat.ofDigitChars 10 ds 0

namespace Integer

/-- The integer a whole text denotes: an optional sign and at least one digit. -/
def read? (s : List Char) : Option Int :=
  let ⟨negative, ds⟩ := takeSign s
  if ds.isEmpty || !ds.all Char.isDigit then none else some (signed negative (digitsValue ds))

/-- The word with a digit written behind it. The digit counts away from zero, and both steps stop at
the bounds. -/
def appendDigit (negative : Bool) (n : Int64) (c : Char) : Int64 :=
  let shifted := Int64.ofIntClamp (n.toInt * 10)
  Int64.ofIntClamp (shifted.toInt + signed negative (c.toNat - '0'.toNat))

/-- The word at the start of a text, read digit by digit; zero where no digit follows the optional
sign. -/
def leadingInt64 (s : List Char) : Int64 :=
  let ⟨negative, ds⟩ := takeSign s
  (ds.takeWhile Char.isDigit).foldl (appendDigit negative) 0

def write (n : Int) : List Char :=
  if n < 0 then '-' :: Nat.toDigits 10 n.natAbs else Nat.toDigits 10 n.natAbs

/-- The 64-bit word of an integer that has one. -/
def toInt64? (n : Int) : Option Int64 :=
  if Int64.minValue.toInt ≤ n ∧ n ≤ Int64.maxValue.toInt then some (Int64.ofInt n) else none

def readInt64? (s : List Char) : Option Int64 :=
  (read? s).bind toInt64?

theorem takeSign_of_isDigit {c : Char} (h : c.isDigit = true) (s : List Char) :
    takeSign (c :: s) = (false, c :: s) := by
  have h₁ : c ≠ '-' := by rintro rfl; exact absurd h (by decide)
  have h₂ : c ≠ '+' := by rintro rfl; exact absurd h (by decide)
  simp only [takeSign, h₁, h₂, if_false]

theorem digitsValue_toDigits (n : Nat) : digitsValue (Nat.toDigits 10 n) = n := by
  rw [digitsValue, Nat.ofDigitChars_ten_toDigits]

theorem takeSign_toDigits (n : Nat) :
    takeSign (Nat.toDigits 10 n) = (false, Nat.toDigits 10 n) := by
  cases h : Nat.toDigits 10 n with
  | nil => exact absurd h Nat.toDigits_ne_nil
  | cons c s =>
    exact takeSign_of_isDigit (Nat.isDigit_of_mem_toDigits (by decide) (by decide)
      (h ▸ List.mem_cons_self)) s

theorem read?_eq_some {s ds : List Char} {negative : Bool} (hs : takeSign s = (negative, ds))
    (hne : ds ≠ []) (hd : ds.all Char.isDigit = true) :
    read? s = some (signed negative (digitsValue ds)) := by
  simp only [read?, hs, hd, List.isEmpty_eq_false_iff.2 hne, Bool.not_true, Bool.or_false,
    Bool.false_eq_true, if_false]

theorem read?_write (n : Int) : read? (write n) = some n := by
  have hd : (Nat.toDigits 10 n.natAbs).all Char.isDigit = true := by
    rw [List.all_eq_true]
    exact fun c hc => Nat.isDigit_of_mem_toDigits (by decide) (by decide) hc
  by_cases h : n < 0
  · have hs : takeSign (write n) = (true, Nat.toDigits 10 n.natAbs) := by
      rw [write, if_pos h]
      rfl
    rw [read?_eq_some hs Nat.toDigits_ne_nil hd, digitsValue_toDigits]
    simp only [signed, if_true, Option.some.injEq]
    omega
  · have hs : takeSign (write n) = (false, Nat.toDigits 10 n.natAbs) := by
      rw [write, if_neg h, takeSign_toDigits]
    rw [read?_eq_some hs Nat.toDigits_ne_nil hd, digitsValue_toDigits]
    simp only [signed, Bool.false_eq_true, if_false, Option.some.injEq]
    omega

theorem mem_write {n : Int} {c : Char} (h : c ∈ write n) : c = '-' ∨ c.isDigit = true := by
  rw [write] at h
  split at h
  · rcases List.mem_cons.1 h with h | h
    · exact Or.inl h
    · exact Or.inr (Nat.isDigit_of_mem_toDigits (by decide) (by decide) h)
  · exact Or.inr (Nat.isDigit_of_mem_toDigits (by decide) (by decide) h)

theorem write_ne_nil (n : Int) : write n ≠ [] := by
  rw [write]
  split
  · exact List.cons_ne_nil _ _
  · exact Nat.toDigits_ne_nil

theorem toInt64?_toInt (n : Int64) : toInt64? n.toInt = some n := by
  have h := n.minValue_le_toInt
  have h' := n.toInt_le
  simp only [toInt64?, h, h', and_self, if_true, Int64.ofInt_toInt]

end Integer
end Numeral
end TableShell
