import TableShell.Proofs.RoundedWords
import TableShell.Proofs.Spellings

/-
What the readers of numbers make of a spelling.

The reader of words takes plain digits within the bounds and nothing else. The reader of doubles
takes every spelling, and takes it for the double nearest to the number denoted.
-/
namespace TableShell
namespace Numeral

namespace Binary64

theorem two_mul_scale_le {k : Nat} (hk : 324 ≤ k) : 2 * scale ≤ 10 ^ k := by
  have h : 2 * scale ≤ 10 ^ 324 := by decide +kernel
  exact h.trans (Nat.pow_le_pow_right (by decide) hk)

theorem bound_le {k : Nat} (hk : 309 ≤ k) : bound ≤ 10 ^ k * scale := by
  have h : bound ≤ 10 ^ 309 * scale := by decide +kernel
  exact h.trans (Nat.mul_le_mul_right scale (Nat.pow_le_pow_right (by decide) hk))

/-- A decimal far enough below the least double vanishes. -/
theorem units_of_small {digits : Nat} {exponent : Int}
    (h : digits = 0 ∨ exponent + digits.log2 + 1 ≤ -324) :
    units (digits * 10 ^ exponent.toNat) (10 ^ (-exponent).toNat) = 0 := by
  rw [units_eq_zero_iff (Nat.pow_pos (by decide))]
  rcases h with rfl | h
  · rw [Nat.zero_mul, Nat.zero_mul, Nat.mul_zero]
    exact Nat.zero_le _
  · have hzero : exponent.toNat = 0 := by omega
    have hle : digits ≤ 10 ^ (digits.log2 + 1) :=
      Nat.le_of_lt (Nat.lt_of_lt_of_le Nat.lt_log2_self (Nat.pow_le_pow_left (by decide) _))
    rw [hzero, Nat.pow_zero, Nat.mul_one]
    obtain ⟨k, hk⟩ := Nat.exists_eq_add_of_le (show digits.log2 + 1 ≤ (-exponent).toNat by omega)
    calc 2 * (digits * scale) = digits * (2 * scale) := Nat.mul_left_comm _ _ _
      _ ≤ 10 ^ (digits.log2 + 1) * 10 ^ k := Nat.mul_le_mul hle (two_mul_scale_le (by omega))
      _ = 10 ^ (digits.log2 + 1 + k) := (Nat.pow_add 10 _ _).symm
      _ = 10 ^ (-exponent).toNat := by rw [hk]

/-- A decimal with a large power of ten is out of bounds. -/
theorem bound_le_units {digits : Nat} (hdigits : digits ≠ 0) {exponent : Int}
    (h : 309 ≤ exponent) :
    bound ≤ units (digits * 10 ^ exponent.toNat) (10 ^ (-exponent).toNat) := by
  obtain ⟨k, -, hk⟩ := exists_bound
  have hzero : (-exponent).toNat = 0 := by omega
  have hle := bound_le (show 309 ≤ exponent.toNat by omega)
  rw [hk] at hle ⊢
  rw [hzero, Nat.pow_zero]
  refine le_units Nat.one_pos (isDouble_two_pow k) ?_
  calc 2 ^ k * 1 = 2 ^ k := Nat.mul_one _
    _ ≤ 10 ^ exponent.toNat := Nat.le_of_mul_le_mul_right hle scale_pos
    _ ≤ digits * 10 ^ exponent.toNat := Nat.le_mul_of_pos_left _ (Nat.pos_of_ne_zero hdigits)

/-- The shortcuts for small and large powers of ten change nothing. -/
theorem ofDecimal_eq_ofQuotient (d : Decimal) :
    ofDecimal d = ofQuotient d.negative (d.digits * 10 ^ d.exponent.toNat)
      (10 ^ (-d.exponent).toNat) := by
  rw [ofDecimal]
  split
  · next h => rw [ofQuotient_eq, units_of_small h, if_pos bound_pos, signed_zero]
  · split
    · next h hlarge =>
      rw [ofQuotient_eq, if_neg (Nat.not_lt.2 (bound_le_units (not_or.1 h).1 hlarge))]
    · rw [natPow_eq, natPow_eq]

/-- A decimal is read as the double nearest to the number it stands for. -/
theorem ofDecimal_eq_nearest (d : Decimal) : ofDecimal d = nearest d.value := by
  have hvalue : ((signed d.negative (d.digits * 10 ^ d.exponent.toNat) : Int) : ℚ) /
      (10 ^ (-d.exponent).toNat : Nat) = d.value := by
    rw [Decimal.value, signed_mul]
    obtain ⟨n, h | h⟩ := Int.eq_nat_or_neg d.exponent
    · rw [h, Int.toNat_natCast, Int.toNat_neg_natCast, zpow_natCast]
      push_cast
      rw [div_one]
    · rw [h, neg_neg, Int.toNat_natCast, Int.toNat_neg_natCast, zpow_neg, zpow_natCast]
      push_cast
      rw [mul_one, div_eq_mul_inv]
  rw [ofDecimal_eq_ofQuotient, ofQuotient_eq_nearest (Nat.pow_pos (by decide)) hvalue.symm]

end Binary64

/-! ### The integers and the words among the spellings -/

theorem Integer.toInt64?_eq_some_iff {m : Int} {n : Int64} :
    toInt64? m = some n ↔ m = n.toInt := by
  constructor
  · intro h
    rw [toInt64?] at h
    split at h
    · next hm =>
      rw [← Option.some.inj h, Int64.toInt_ofInt_of_le]
      · rw [Int64.toInt_minValue] at hm
        exact hm.1
      · rw [Int64.toInt_maxValue] at hm
        omega
    · exact absurd h (by simp)
  · rintro rfl
    exact toInt64?_toInt n

theorem toLower_of_isDigit {c : Char} (h : c.isDigit = true) : c.toLower = c := by
  simp only [Char.isDigit, Bool.and_eq_true, decide_eq_true_eq] at h
  have hupper : ¬ (c.val ≥ 'A'.val ∧ c.val ≤ 'Z'.val) := by
    intro hupper
    exact absurd (UInt32.le_trans hupper.1 h.2) (by decide)
  exact dif_neg hupper

namespace Spelling

variable {s : Spelling}

theorem value_of_isPlain (h : s.IsPlain) :
    s.value = signed s.sign.negative (digitsValue s.whole) := by
  rw [value, Sign.apply, decimals, exponent, h.1, h.2]
  cases s.sign.negative <;> simp [signed, digitsValue]

theorem tail_eq_nil_iff : s.tail = [] ↔ s.IsPlain := by
  rw [tail, IsPlain, List.append_eq_nil_iff]
  refine and_congr ?_ ?_
  · cases s.fraction <;> simp
  · cases s.power <;> simp [Power.text]

theorem all_isDigit_iff : (s.whole ++ s.tail).all Char.isDigit = true ↔ s.IsPlain := by
  rw [List.all_append, s.whole_isDigit, Bool.true_and, ← tail_eq_nil_iff]
  constructor
  · intro h
    cases htail : s.tail with
    | nil => rfl
    | cons c rest =>
      have hc := s.head_tail c (by rw [htail]; rfl)
      rw [htail, List.all_cons, hc] at h
      exact absurd h (by simp)
  · intro h
    rw [h]
    rfl

/-- Integers are read from plain digits alone. -/
theorem readInteger?_eq_some_iff {n : Int} :
    Integer.read? s.text = some n ↔ s.IsPlain ∧ s.value = n := by
  obtain ⟨c, rest, hbody, -⟩ := s.head_body
  have hempty : (s.whole ++ s.tail).isEmpty = false := by
    rw [hbody]
    rfl
  rw [Integer.read?, s.takeSign_text]
  dsimp only
  by_cases hp : s.IsPlain
  · rw [hempty, all_isDigit_iff.2 hp, value_of_isPlain hp, tail_eq_nil_iff.2 hp, List.append_nil]
    simp [hp]
  · have hall := Bool.eq_false_iff.2 (mt all_isDigit_iff.1 hp)
    simp [hall, hp]

/-- A word is read from plain digits, and none but the number denoted. -/
theorem readInt64?_eq_some_iff {n : Int64} :
    Integer.readInt64? s.text = some n ↔ s.IsPlain ∧ s.value = n.toInt := by
  rw [Integer.readInt64?, Option.bind_eq_some_iff]
  constructor
  · intro h
    obtain ⟨m, hm, hn⟩ := h
    obtain rfl := Integer.toInt64?_eq_some_iff.1 hn
    exact readInteger?_eq_some_iff.1 hm
  · intro h
    exact ⟨n.toInt, readInteger?_eq_some_iff.2 h, Integer.toInt64?_toInt n⟩

theorem readInt64?_eq_none (h : ¬ s.IsWord) : Integer.readInt64? s.text = none := by
  rw [Option.eq_none_iff_forall_ne_some]
  intro n hn
  obtain ⟨hp, hv⟩ := readInt64?_eq_some_iff.1 hn
  exact h ⟨hp, n, hv⟩

/-- No spelling is one of the words for infinity and for no number. -/
theorem readDouble?_text (s : Spelling) :
    Binary64.read? s.text = some (Binary64.nearest s.value) := by
  obtain ⟨c, rest, hbody, hc⟩ := s.head_body
  have hlower : c.toLower = c := by
    rcases hc with hc | rfl
    · exact toLower_of_isDigit hc
    · rfl
  have hphrase : ∀ p ps, p.isDigit = false → p ≠ '.' →
      Text.isPhrase (p :: ps) (s.whole ++ s.tail) = false := by
    intro p ps hp hne
    rw [hbody, Text.isPhrase, List.map_cons, hlower, beq_eq_false_iff_ne]
    intro h
    rw [(List.cons.inj h).1, hp] at hc
    exact hc.elim Bool.false_ne_true hne
  have hinf : Text.isPhrase "inf".toList (s.whole ++ s.tail) = false :=
    hphrase 'i' "nf".toList rfl (by decide)
  have hinfinity : Text.isPhrase "infinity".toList (s.whole ++ s.tail) = false :=
    hphrase 'i' "nfinity".toList rfl (by decide)
  have hnan : Text.isPhrase "nan".toList (s.whole ++ s.tail) = false :=
    hphrase 'n' "an".toList rfl (by decide)
  simp only [Binary64.read?, s.takeSign_text, hinf, hinfinity, hnan, Bool.or_self,
    Bool.false_eq_true, if_false, s.read?_text, Option.map_some, Binary64.ofDecimal_eq_nearest,
    s.value_decimal]

end Spelling
end Numeral
end TableShell
