import Mathlib.Algebra.Order.Field.Rat
import Mathlib.Tactic.FieldSimp
import Mathlib.Tactic.NormNum
import TableShell.Numeral.Decimal

/-
The spellings of a decimal, and the number each denotes.

A sign, digits with a point among them or none, and a power of ten. Reading takes exactly these
texts, and takes each for the number it denotes.
-/
namespace TableShell
namespace Numeral

inductive Sign
  | none
  | plus
  | minus
deriving DecidableEq, Repr

namespace Sign

def text : Sign → List Char
  | none => []
  | plus => ['+']
  | minus => ['-']

def negative (sign : Sign) : Bool :=
  sign == minus

def apply (sign : Sign) (q : ℚ) : ℚ :=
  if sign.negative then -q else q

end Sign

/-- The power of ten at the end of a spelling. -/
structure Power where
  mark : Char
  sign : Sign
  digits : List Char
  mark_eq : mark = 'e' ∨ mark = 'E' := by decide
  digits_ne_nil : digits ≠ [] := by decide
  digits_isDigit : digits.all Char.isDigit = true := by decide

namespace Power

def text (p : Power) : List Char :=
  p.mark :: (p.sign.text ++ p.digits)

def exponent (p : Power) : Int :=
  signed p.sign.negative (digitsValue p.digits)

end Power

/-- A way to write a number. Digits may be missing on one side of the point, not on both. -/
structure Spelling where
  sign : Sign
  whole : List Char
  fraction : Option (List Char)
  power : Option Power
  digits_ne_nil : whole ++ fraction.getD [] ≠ [] := by decide
  whole_isDigit : whole.all Char.isDigit = true := by decide
  fraction_isDigit : (fraction.getD []).all Char.isDigit = true := by decide

namespace Spelling

/-- The digits behind the point. -/
def decimals (s : Spelling) : List Char :=
  s.fraction.getD []

def exponent (s : Spelling) : Int :=
  (s.power.map Power.exponent).getD 0

/-- The text from the point on. -/
def tail (s : Spelling) : List Char :=
  (s.fraction.map fun ds => '.' :: ds).getD [] ++ (s.power.map Power.text).getD []

def text (s : Spelling) : List Char :=
  s.sign.text ++ (s.whole ++ s.tail)

/-- The number denoted. -/
def value (s : Spelling) : ℚ :=
  s.sign.apply (digitsValue s.whole + digitsValue s.decimals / 10 ^ s.decimals.length) *
    10 ^ s.exponent

/-- Digits and no more, behind the sign. -/
def IsPlain (s : Spelling) : Prop :=
  s.fraction = none ∧ s.power = none

/-- An integer in plain digits that a word holds. -/
def IsWord (s : Spelling) : Prop :=
  s.IsPlain ∧ ∃ n : Int64, s.value = n.toInt

/-- What reading makes of the text. -/
def decimal (s : Spelling) : Decimal :=
  ⟨s.sign.negative, digitsValue (s.whole ++ s.decimals), s.exponent - s.decimals.length⟩

end Spelling

/-- The number a decimal stands for. -/
def Decimal.value (d : Decimal) : ℚ :=
  signed d.negative d.digits * 10 ^ d.exponent

/-! ### Reading a spelling -/

theorem digitsValue_append (a b : List Char) :
    digitsValue (a ++ b) = digitsValue a * 10 ^ b.length + digitsValue b := by
  rw [digitsValue, Nat.ofDigitChars_append, Nat.ofDigitChars_eq_ofDigitChars_zero, Nat.mul_comm]
  rfl

/-- Digits in front of what is no digit. -/
theorem takeWhile_digits {ds rest : List Char} (hd : ds.all Char.isDigit = true)
    (hr : ∀ c ∈ rest.head?, c.isDigit = false) :
    (ds ++ rest).takeWhile Char.isDigit = ds ∧ (ds ++ rest).dropWhile Char.isDigit = rest := by
  rw [List.all_eq_true] at hd
  rw [List.takeWhile_append_of_pos hd, List.dropWhile_append_of_pos hd]
  cases rest with
  | nil => exact ⟨List.append_nil ds, rfl⟩
  | cons c rest =>
    have hc := hr c rfl
    rw [List.takeWhile_cons_of_neg (by simp [hc]), List.dropWhile_cons_of_neg (by simp [hc]),
      List.append_nil]
    exact ⟨rfl, rfl⟩

theorem takeSign_text (sign : Sign) {rest : List Char}
    (h : ∀ c ∈ rest.head?, c ≠ '-' ∧ c ≠ '+') :
    takeSign (sign.text ++ rest) = (sign.negative, rest) := by
  cases sign with
  | none =>
    cases rest with
    | nil => rfl
    | cons c rest =>
      have hc := h c rfl
      change takeSign (c :: rest) = (false, c :: rest)
      rw [takeSign, if_neg hc.1, if_neg hc.2]
  | plus => rfl
  | minus => rfl

theorem exists_sign (s : List Char) : ∃ sign : Sign,
    sign.negative = (takeSign s).1 ∧ s = sign.text ++ (takeSign s).2 := by
  cases s with
  | nil => exact ⟨.none, rfl, rfl⟩
  | cons c s =>
    by_cases hminus : c = '-'
    · refine ⟨.minus, ?_, ?_⟩ <;> simp [takeSign, hminus, Sign.negative, Sign.text]
    · by_cases hplus : c = '+'
      · refine ⟨.plus, ?_, ?_⟩ <;> simp [takeSign, hplus, Sign.negative, Sign.text]
      · refine ⟨.none, ?_, ?_⟩ <;> simp [takeSign, hminus, hplus, Sign.negative, Sign.text]

theorem sign_ne_of_isDigit {c : Char} (h : c.isDigit = true) : c ≠ '-' ∧ c ≠ '+' := by
  constructor <;> rintro rfl <;> exact absurd h (by decide)

theorem head_of_all {ds : List Char} (h : ds.all Char.isDigit = true) :
    ∀ c ∈ ds.head?, c.isDigit = true :=
  fun c hc => List.all_eq_true.1 h c (List.mem_of_mem_head? hc)

theorem Integer.read?_text (sign : Sign) {ds : List Char} (hne : ds ≠ [])
    (hd : ds.all Char.isDigit = true) :
    Integer.read? (sign.text ++ ds) = some (signed sign.negative (digitsValue ds)) :=
  Integer.read?_eq_some (takeSign_text sign fun c hc => sign_ne_of_isDigit (head_of_all hd c hc))
    hne hd

theorem Integer.exists_of_read? {s : List Char} {n : Int} (h : Integer.read? s = some n) :
    ∃ (sign : Sign) (ds : List Char), ds ≠ [] ∧ ds.all Char.isDigit = true ∧
      s = sign.text ++ ds ∧ n = signed sign.negative (digitsValue ds) := by
  obtain ⟨sign, hsign, hs⟩ := exists_sign s
  rw [Integer.read?] at h
  dsimp only at h
  split at h
  · exact absurd h (by simp)
  · next hcond =>
    rw [Bool.or_eq_true, not_or, Bool.not_eq_true, Bool.not_eq_true, Bool.not_eq_false'] at hcond
    exact ⟨sign, (takeSign s).2, List.isEmpty_eq_false_iff.1 hcond.1, hcond.2, hs,
      hsign ▸ (Option.some.inj h).symm⟩

namespace Spelling

variable (s : Spelling)

theorem head_power : ∀ c ∈ ((s.power.map Power.text).getD []).head?,
    c = 'e' ∨ c = 'E' := by
  intro c hc
  cases hp : s.power with
  | none => simp [hp] at hc
  | some p =>
    rw [hp] at hc
    have heq : p.mark = c := Option.some.inj hc
    exact heq ▸ p.mark_eq

theorem head_tail : ∀ c ∈ s.tail.head?, c.isDigit = false := by
  intro c hc
  cases hf : s.fraction with
  | none =>
    rw [tail, hf] at hc
    rcases s.head_power c hc with rfl | rfl <;> rfl
  | some ds =>
    rw [tail, hf] at hc
    have heq : '.' = c := Option.some.inj hc
    rw [← heq]
    rfl

theorem head_body : ∃ c rest, s.whole ++ s.tail = c :: rest ∧ (c.isDigit = true ∨ c = '.') := by
  cases hw : s.whole with
  | cons c rest =>
    have h := s.whole_isDigit
    rw [hw, List.all_cons, Bool.and_eq_true] at h
    exact ⟨c, _, rfl, Or.inl h.1⟩
  | nil =>
    have hne := s.digits_ne_nil
    cases hf : s.fraction with
    | none => simp [hw, hf] at hne
    | some ds => exact ⟨'.', _, by rw [tail, hf]; rfl, Or.inr rfl⟩

theorem takeSign_text : takeSign s.text = (s.sign.negative, s.whole ++ s.tail) := by
  obtain ⟨c, rest, hbody, hc⟩ := s.head_body
  rw [text]
  refine Numeral.takeSign_text s.sign ?_
  rw [hbody]
  intro d hd
  cases Option.some.inj hd
  rcases hc with hc | rfl
  · exact sign_ne_of_isDigit hc
  · decide

theorem takeFraction_tail :
    Decimal.takeFraction s.tail = (s.decimals, (s.power.map Power.text).getD []) := by
  have hrest : ∀ c ∈ ((s.power.map Power.text).getD []).head?, c.isDigit = false := by
    intro c hc
    rcases s.head_power c hc with rfl | rfl <;> rfl
  cases hf : s.fraction with
  | none =>
    have htail : s.tail = (s.power.map Power.text).getD [] := by rw [tail, hf]; rfl
    rw [htail, decimals, hf]
    cases hp : (s.power.map Power.text).getD [] with
    | nil => rfl
    | cons c rest =>
      have hc : c ≠ '.' := by
        rintro rfl
        have hdot := s.head_power '.' (by rw [hp]; rfl)
        exact absurd hdot (by decide)
      rw [Decimal.takeFraction, if_neg hc]
      rfl
  | some ds =>
    have htail : s.tail = '.' :: (ds ++ (s.power.map Power.text).getD []) := by rw [tail, hf]; rfl
    have hd : ds.all Char.isDigit = true := by
      have h := s.fraction_isDigit
      rwa [hf] at h
    rw [htail, decimals, hf, Decimal.takeFraction, if_pos rfl, (takeWhile_digits hd hrest).1,
      (takeWhile_digits hd hrest).2]
    rfl

theorem readExponent?_power :
    Decimal.readExponent? ((s.power.map Power.text).getD []) = some s.exponent := by
  rw [exponent]
  cases s.power with
  | none => rfl
  | some p =>
    change Decimal.readExponent? (p.mark :: (p.sign.text ++ p.digits)) = some p.exponent
    rw [Decimal.readExponent?, if_pos p.mark_eq,
      Integer.read?_text p.sign p.digits_ne_nil p.digits_isDigit]
    rfl

/-- Every spelling is read. -/
theorem read?_text : Decimal.read? s.text = some s.decimal := by
  have hwhole := takeWhile_digits s.whole_isDigit s.head_tail
  have hempty : (s.whole.isEmpty && s.decimals.isEmpty) = false := by
    have hne := s.digits_ne_nil
    rw [← decimals] at hne
    cases hw : s.whole <;> cases hd : s.decimals <;> simp_all
  simp only [Decimal.read?, s.takeSign_text, hwhole.1, hwhole.2, s.takeFraction_tail, hempty,
    Bool.false_eq_true, if_false, s.readExponent?_power, Option.map_some]
  rfl

end Spelling

theorem Decimal.exists_fraction (r : List Char) : ∃ fraction : Option (List Char),
    (fraction.getD []).all Char.isDigit = true ∧ (takeFraction r).1 = fraction.getD [] ∧
      r = (fraction.map fun ds => '.' :: ds).getD [] ++ (takeFraction r).2 := by
  cases r with
  | nil => exact ⟨none, rfl, rfl, rfl⟩
  | cons c r =>
    by_cases hc : c = '.'
    · refine ⟨some (r.takeWhile Char.isDigit), List.all_takeWhile, ?_, ?_⟩
      · rw [takeFraction, if_pos hc]
        rfl
      · rw [takeFraction, if_pos hc, hc]
        exact congrArg ('.' :: ·) List.takeWhile_append_dropWhile.symm
    · exact ⟨none, rfl, by rw [takeFraction, if_neg hc]; rfl, by rw [takeFraction, if_neg hc]; rfl⟩

theorem Decimal.exists_power {r : List Char} {e : Int} (h : readExponent? r = some e) :
    ∃ power : Option Power,
      r = (power.map Power.text).getD [] ∧ (power.map Power.exponent).getD 0 = e := by
  cases r with
  | nil => exact ⟨none, rfl, Option.some.inj h⟩
  | cons c r =>
    rw [readExponent?] at h
    split at h
    · next hc =>
      obtain ⟨sign, ds, hne, hd, rfl, rfl⟩ := Integer.exists_of_read? h
      exact ⟨some ⟨c, sign, ds, hc, hne, hd⟩, rfl, rfl⟩
    · exact absurd h (by simp)

theorem Decimal.exists_spelling {t : List Char} {d : Decimal} (h : read? t = some d) :
    ∃ s : Spelling, s.text = t ∧ s.decimal = d := by
  obtain ⟨sign, hsign, ht⟩ := exists_sign t
  simp only [read?] at h
  split at h
  · exact absurd h (by simp)
  · next hne =>
    obtain ⟨e, he, rfl⟩ := Option.map_eq_some_iff.1 h
    obtain ⟨power, hpower, rfl⟩ := exists_power he
    obtain ⟨fraction, hd, hf, hrest⟩ :=
      exists_fraction ((takeSign t).2.dropWhile Char.isDigit)
    rw [hf] at hne ⊢
    rw [hpower] at hrest
    refine ⟨⟨sign, (takeSign t).2.takeWhile Char.isDigit, fraction, power, ?_,
      List.all_takeWhile, hd⟩, ?_, ?_⟩
    · simpa [List.append_eq_nil_iff, List.isEmpty_iff] using hne
    · have hbody : (takeSign t).2 = (takeSign t).2.takeWhile Char.isDigit ++
          ((fraction.map fun ds => '.' :: ds).getD [] ++ (power.map Power.text).getD []) := by
        rw [← hrest, List.takeWhile_append_dropWhile]
      conv_rhs => rw [ht, hbody]
      rfl
    · rw [← hsign]
      rfl

/-- The spellings are the texts read. -/
theorem Decimal.read?_eq_some_iff {t : List Char} {d : Decimal} :
    read? t = some d ↔ ∃ s : Spelling, s.text = t ∧ s.decimal = d := by
  constructor
  · exact exists_spelling
  · intro h
    obtain ⟨s, rfl, rfl⟩ := h
    exact s.read?_text

/-- The decimal read is the number denoted. -/
theorem Spelling.value_decimal (s : Spelling) : s.decimal.value = s.value := by
  have hten : (10 : ℚ) ≠ 0 := by norm_num
  have hpow : (10 : ℚ) ^ s.decimals.length ≠ 0 := pow_ne_zero _ hten
  rw [Decimal.value, decimal, value, Sign.apply, digitsValue_append, zpow_sub₀ hten, zpow_natCast]
  cases s.sign.negative
  · simp only [signed, Bool.false_eq_true, if_false]
    push_cast
    field_simp
  · simp only [signed, if_true]
    push_cast
    field_simp

end Numeral
end TableShell
