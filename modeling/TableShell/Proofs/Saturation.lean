import Mathlib.Data.Bool.AllAny
import TableShell.Proofs.NumericText
import TableShell.Proofs.Usability

/-
Integers at the start of a text, stored as words.

A text that is no decimal is read digit by digit, and each digit can stop the word at a bound. Every
digit counts away from zero, so the word never leaves a bound again, and in the end it is the whole
integer, or the bound nearer to it.
-/
namespace TableShell

namespace Numeral

theorem toInt_ofIntClamp_eq (n : Int) :
    (Int64.ofIntClamp n).toInt = max (-2 ^ 63) (min n (2 ^ 63 - 1)) := by
  rcases Int.le_total n (-2 ^ 63) with hlow | hlow
  · rw [Binary64.ofIntClamp_of_le hlow, Int64.toInt_minValue]
    omega
  · rcases Int.le_total (2 ^ 63 - 1) n with hhigh | hhigh
    · rw [Binary64.ofIntClamp_of_ge hhigh, Int64.toInt_maxValue]
      omega
    · rw [Int64.toInt_ofIntClamp (by rw [Int64.toInt_minValue]; omega)
        (by rw [Int64.toInt_maxValue]; omega)]
      omega

namespace Integer

/-- Stopping at a bound before a digit comes and after it is stopping once. -/
theorem appendDigit_ofIntClamp (negative : Bool) (n : Nat) (c : Char) :
    appendDigit negative (Int64.ofIntClamp (signed negative n)) c =
      Int64.ofIntClamp (signed negative (10 * n + (c.toNat - '0'.toNat))) := by
  rw [← Int64.toInt_inj, appendDigit]
  simp only [toInt_ofIntClamp_eq]
  generalize c.toNat - '0'.toNat = digit
  cases negative with
  | false =>
    simp only [signed_false]
    omega
  | true =>
    simp only [signed_true]
    omega

theorem foldl_appendDigit (negative : Bool) (ds : List Char) (n : Nat) :
    ds.foldl (appendDigit negative) (Int64.ofIntClamp (signed negative n)) =
      Int64.ofIntClamp (signed negative (Nat.ofDigitChars 10 ds n)) := by
  induction ds generalizing n with
  | nil => rfl
  | cons c ds ih =>
    rw [List.foldl_cons, appendDigit_ofIntClamp, ih, Nat.ofDigitChars_cons]

theorem leadingInt64_eq {s ds : List Char} {negative : Bool} (h : takeSign s = (negative, ds)) :
    leadingInt64 s =
      Int64.ofIntClamp (signed negative (digitsValue (ds.takeWhile Char.isDigit))) := by
  have hzero : (0 : Int64) = Int64.ofIntClamp (signed negative 0) := by
    rw [signed_zero]
    rfl
  rw [leadingInt64, h, hzero]
  exact foldl_appendDigit negative (ds.takeWhile Char.isDigit) 0

end Integer

/-! ### Texts that are no decimals -/

/-- The characters that decimals are made of. -/
def isDecimalChar (c : Char) : Bool :=
  c.isDigit || c == '+' || c == '-' || c == '.' || c == 'e' || c == 'E'

theorem isDecimalChar_of_isDigit {c : Char} (h : c.isDigit = true) : isDecimalChar c = true := by
  simp only [isDecimalChar, h, Bool.true_or]

theorem Sign.isDecimalChar_of_mem {sign : Sign} : ∀ c ∈ sign.text, isDecimalChar c = true :=
  List.all_eq_true.1 (by cases sign <;> decide)

theorem isDecimalChar_of_mem_digits {ds : List Char} (h : ds.all Char.isDigit = true) :
    ∀ c ∈ ds, isDecimalChar c = true :=
  fun c hc => isDecimalChar_of_isDigit (List.all_eq_true.1 h c hc)

theorem Power.isDecimalChar_of_mem (p : Power) : ∀ c ∈ p.text, isDecimalChar c = true := by
  rw [Power.text, List.forall_mem_cons, List.forall_mem_append]
  refine ⟨?_, Sign.isDecimalChar_of_mem, isDecimalChar_of_mem_digits p.digits_isDigit⟩
  rcases p.mark_eq with h | h <;> rw [h] <;> rfl

namespace Spelling

variable (s : Spelling)

theorem isDecimalChar_of_mem : ∀ c ∈ s.text, isDecimalChar c = true := by
  have hfraction : ∀ c ∈ (s.fraction.map fun ds => '.' :: ds).getD [], isDecimalChar c = true := by
    have hd := s.fraction_isDigit
    cases hf : s.fraction with
    | none => exact fun c hc => absurd hc List.not_mem_nil
    | some ds =>
      rw [hf] at hd
      exact List.forall_mem_cons.2 ⟨rfl, isDecimalChar_of_mem_digits hd⟩
  have hpower : ∀ c ∈ (s.power.map Power.text).getD [], isDecimalChar c = true := by
    cases s.power with
    | none => exact fun c hc => absurd hc List.not_mem_nil
    | some p => exact p.isDecimalChar_of_mem
  simp only [text, tail, List.forall_mem_append]
  exact ⟨Sign.isDecimalChar_of_mem, isDecimalChar_of_mem_digits s.whole_isDigit, hfraction, hpower⟩

theorem exists_digit : ∃ c ∈ s.text, c.isDigit = true := by
  obtain ⟨c, ds, hds⟩ := List.exists_cons_of_ne_nil s.digits_ne_nil
  have hc : c ∈ s.whole ++ s.fraction.getD [] := hds ▸ List.mem_cons_self
  have hdigit : c.isDigit = true := by
    rcases List.mem_append.1 hc with hc | hc
    · exact List.all_eq_true.1 s.whole_isDigit c hc
    · exact List.all_eq_true.1 s.fraction_isDigit c hc
  refine ⟨c, ?_, hdigit⟩
  rw [text, tail, List.mem_append, List.mem_append, List.mem_append]
  rcases List.mem_append.1 hc with hc | hc
  · exact Or.inr (Or.inl hc)
  · cases hf : s.fraction with
    | none => rw [hf] at hc; exact absurd hc List.not_mem_nil
    | some ds => rw [hf] at hc; exact Or.inr (Or.inr (Or.inl (List.mem_cons_of_mem '.' hc)))

end Spelling

theorem Decimal.read?_eq_none_of_mem {t : List Char} {c : Char} (hm : c ∈ t)
    (hc : isDecimalChar c = false) : read? t = none := by
  rw [Option.eq_none_iff_forall_ne_some]
  intro d hd
  obtain ⟨s, rfl, -⟩ := exists_spelling hd
  rw [s.isDecimalChar_of_mem c hm] at hc
  exact absurd hc (by decide)

theorem Decimal.read?_eq_none_of_no_digit {t : List Char} (h : ∀ c ∈ t, c.isDigit = false) :
    read? t = none := by
  rw [Option.eq_none_iff_forall_ne_some]
  intro d hd
  obtain ⟨s, rfl, -⟩ := exists_spelling hd
  obtain ⟨c, hm, hc⟩ := s.exists_digit
  rw [h c hm] at hc
  exact absurd hc (by decide)

/-- Integers are decimals. -/
theorem Integer.read?_eq_none {t : List Char} (h : Decimal.read? t = none) : read? t = none := by
  rw [Option.eq_none_iff_forall_ne_some]
  intro n hn
  obtain ⟨sign, ds, hne, hd, rfl, -⟩ := exists_of_read? hn
  let s : Spelling := ⟨sign, ds, none, none, by simpa using hne, hd, rfl⟩
  have hs : s.text = sign.text ++ ds := by
    rw [Spelling.text, Spelling.tail_eq_nil_iff.2 ⟨rfl, rfl⟩, List.append_nil]
  rw [← hs, s.read?_text] at h
  exact absurd h (by simp)

end Numeral

/-! ### Integer texts -/

namespace Value

open Numeral

/-- A text that is no decimal is stored as the integer at its start. -/
theorem readInt64_of_not_decimal {text : String} {negative : Bool} {ds : List Char}
    (h : Decimal.read? (Text.trim text.toList) = none)
    (hs : takeSign (Text.trim text.toList) = (negative, ds)) :
    readInt64 text =
      Int64.ofIntClamp (signed negative (digitsValue (ds.takeWhile Char.isDigit))) := by
  have hword : Integer.readInt64? (Text.trim text.toList) = none := by
    rw [Integer.readInt64?, Integer.read?_eq_none h, Option.bind_none]
  rw [← Integer.leadingInt64_eq hs]
  simp only [readInt64, hword, h]

theorem coerce_int_of_digits {text : String} {sign : Sign} {ds rest : List Char}
    (h : Text.trim text.toList = sign.text ++ (ds ++ rest)) (hne : ds ≠ [])
    (hd : ds.all Char.isDigit = true)
    (hrest : rest = [] ∨
      (∀ c ∈ rest.head?, c.isDigit = false) ∧ ∃ c ∈ rest, isDecimalChar c = false) :
    (Value.text text).coerce .int =
      int (Int64.ofIntClamp (signed sign.negative (digitsValue ds))) := by
  rw [coerce, int.injEq]
  rcases hrest with rfl | ⟨hhead, c, hm, hc⟩
  · let s : Spelling := ⟨sign, ds, none, none, by simpa using hne, hd, rfl⟩
    have hs : Text.trim text.toList = s.text := h
    have hp : s.IsPlain := ⟨rfl, rfl⟩
    rw [readInt64_of_isPlain hs hp, Spelling.value_of_isPlain hp, truncate_intCast]
  · have hdecimal : Decimal.read? (Text.trim text.toList) = none := by
      refine Decimal.read?_eq_none_of_mem (c := c) ?_ hc
      rw [h]
      exact List.mem_append_right _ (List.mem_append_right _ hm)
    have hsign : takeSign (Text.trim text.toList) = (sign.negative, ds ++ rest) := by
      rw [h]
      refine takeSign_text sign fun d hd' => ?_
      rw [List.head?_append_of_ne_nil _ hne] at hd'
      exact sign_ne_of_isDigit (head_of_all hd d hd')
    rw [readInt64_of_not_decimal hdecimal hsign, (takeWhile_digits hd hhead).1]

theorem coerce_int_of_no_digits {text : String}
    (h : ∀ c ∈ (takeSign (Text.trim text.toList)).2.head?, c.isDigit = false)
    (hdecimal : Decimal.read? (Text.trim text.toList) = none) :
    (Value.text text).coerce .int = int 0 := by
  have hnone : (takeSign (Text.trim text.toList)).2.takeWhile Char.isDigit = [] := by
    have htake := (takeWhile_digits List.all_nil h).1
    rwa [List.nil_append] at htake
  rw [coerce, readInt64_of_not_decimal hdecimal Prod.mk.eta.symm, hnone]
  exact congrArg (fun n => int (Int64.ofIntClamp n)) (signed_zero _)

/-- Digits at the start of a text, with nothing behind them or something that no decimal has, are
stored as their integer, or as the nearer bound. A text that neither starts with a digit nor is a
decimal is stored as zero. A word is stored as itself from its decimal text. -/
theorem coerce_int_leading :
    (∀ (text : String) (sign : Sign) (ds rest : List Char),
      Text.trim text.toList = sign.text ++ (ds ++ rest) → ds ≠ [] → ds.all Char.isDigit = true →
        (rest = [] ∨ (∀ c ∈ rest.head?, c.isDigit = false) ∧ ∃ c ∈ rest, isDecimalChar c = false) →
          (Value.text text).coerce .int =
            int (Int64.ofIntClamp (signed sign.negative (digitsValue ds)))) ∧
      (∀ text : String,
        (∀ c ∈ (takeSign (Text.trim text.toList)).2.head?, c.isDigit = false) →
          ((∃ c ∈ Text.trim text.toList, isDecimalChar c = false) ∨
            ∀ c ∈ Text.trim text.toList, c.isDigit = false) →
            (Value.text text).coerce .int = int 0) ∧
      ∀ n : Int64, ((int n).coerce .varchar).coerce .int = int n := by
  refine ⟨fun text sign ds rest => coerce_int_of_digits, ?_, coerce_display⟩
  intro text hhead hcases
  refine coerce_int_of_no_digits hhead ?_
  rcases hcases with ⟨c, hm, hc⟩ | hdigits
  · exact Decimal.read?_eq_none_of_mem hm hc
  · exact Decimal.read?_eq_none_of_no_digit hdigits

/-- The least word and the number below it, both with a text behind, the number above the greatest
word, and a sign with no digit behind it. -/
theorem coerce_int_leading_bounds :
    (text "-9223372036854775808\u20ac").coerce .int = int Int64.minValue ∧
      (text " -0009223372036854775809 e5").coerce .int = int Int64.minValue ∧
      (text "+9223372036854775808").coerce .int = int Int64.maxValue ∧
      (text "-.e+").coerce .int = int 0 := by
  refine ⟨?_, ?_, ?_, ?_⟩
  · exact coerce_int_leading.1 _ .minus "9223372036854775808".toList ['\u20ac']
      (by decide +kernel) (by decide) (by decide)
      (Or.inr ⟨by rintro c ⟨⟩; rfl, '\u20ac', List.mem_cons_self, rfl⟩)
  · exact coerce_int_leading.1 _ .minus "0009223372036854775809".toList [' ', 'e', '5']
      (by decide +kernel) (by decide) (by decide)
      (Or.inr ⟨by rintro c ⟨⟩; rfl, ' ', List.mem_cons_self, rfl⟩)
  · exact coerce_int_leading.1 _ .plus "9223372036854775808".toList []
      (by decide +kernel) (by decide) (by decide) (Or.inl rfl)
  · have htrim : Text.trim "-.e+".toList = ['-', '.', 'e', '+'] := by decide +kernel
    refine coerce_int_leading.2.1 _ ?_ (Or.inr ?_)
    · rw [htrim]
      rintro c ⟨⟩
      rfl
    · rw [htrim]
      exact List.all_iff_forall_prop.1 (by decide)

end Value
end TableShell
