import Mathlib.Data.Rat.Floor
import TableShell.Proofs.NearestDouble

/-
Doubles and the words they are cut off to.

A word is rounded to a whole number, which can be the double of other words too. A number with a
numerator below `2 ^ 53` in its lowest terms shares its double with no word but itself, and keeps
its whole part.
-/
namespace TableShell
namespace Numeral

/-- The whole part, with the rest cut off towards zero. -/
def truncate (q : ℚ) : Int :=
  if q < 0 then ⌈q⌉ else ⌊q⌋

theorem truncate_eq_signed (q : ℚ) :
    truncate q = signed (decide (q < 0)) (q.num.natAbs / q.den) := by
  by_cases h : q < 0
  · have hnum : ((q.num.natAbs : Nat) : Int) = -q.num :=
      Int.ofNat_natAbs_of_nonpos (Int.le_of_lt (Rat.num_neg.2 h))
    rw [truncate, if_pos h, Rat.ceil_def', decide_eq_true h, signed_true, Int.natCast_ediv, hnum]
  · have hnum : ((q.num.natAbs : Nat) : Int) = q.num :=
      Int.natAbs_of_nonneg (Rat.num_nonneg.2 (not_lt.1 h))
    rw [truncate, if_neg h, Rat.floor_def', decide_eq_false h, signed_false, Int.natCast_ediv,
      hnum]

theorem truncate_intCast (n : Int) : truncate n = n := by
  rw [truncate, Int.ceil_intCast, Int.floor_intCast, ite_self]

namespace Binary64

/-! ### Whole numbers -/

/-- A whole number that is a double. -/
theorem nearest_intCast {n : Int} (hn : IsDouble (n.natAbs * scale))
    (hlt : n.natAbs * scale < bound) : nearest n = finite (n * scale) := by
  have hunits : units n.natAbs 1 = n.natAbs * scale :=
    units_of_isDouble Nat.one_pos hn (Nat.mul_one _).symm
  rw [nearest_eq_finite_iff, Rat.num_intCast, Rat.den_intCast, hunits, signed_mul]
  refine ⟨hlt, ?_⟩
  rw [decide_eq_decide.2 Int.cast_lt_zero, signed_natAbs]

theorem mul_scale_lt_bound {n : Nat} (h : n ≤ 2 ^ 63) : n * scale < bound := by
  obtain ⟨k, hk, hbound⟩ := exists_bound
  have hpow : 2 ^ 63 < 2 ^ k := Nat.pow_lt_pow_right (by decide) hk
  rw [hbound]
  exact Nat.mul_lt_mul_of_pos_right (Nat.lt_of_le_of_lt h hpow) scale_pos

theorem scale_dvd_units (n : Nat) : scale ∣ units n 1 := by
  rcases Nat.le_total n (2 ^ 53) with h | h
  · rw [units_of_isDouble Nat.one_pos (isDouble_mul_scale h) (Nat.mul_one _).symm]
    exact Nat.dvd_mul_left _ _
  · have hle : 2 ^ 52 * scale ≤ units n 1 :=
      le_units Nat.one_pos (isDouble_two_pow 52) (by omega)
    obtain ⟨k, -, hk⟩ := exists_scale
    rw [hk] at hle ⊢
    exact dvd_of_isDouble (isDouble_units Nat.one_pos n) hle

/-- A word is rounded to a whole number, which may be the first one beyond the words. -/
theorem exists_nearest_intCast {n : Int} (h : n.natAbs ≤ 2 ^ 63) :
    ∃ k : Int, k.natAbs ≤ 2 ^ 63 ∧ nearest n = finite (k * scale) := by
  obtain ⟨m, hm⟩ := scale_dvd_units n.natAbs
  have hle : units n.natAbs 1 ≤ 2 ^ 63 * scale :=
    units_le Nat.one_pos (isDouble_two_pow 63) (by rwa [Nat.mul_one])
  refine ⟨signed (decide ((n : ℚ) < 0)) m, ?_, ?_⟩
  · rw [natAbs_signed]
    rw [hm, Nat.mul_comm] at hle
    exact Nat.le_of_mul_le_mul_right hle scale_pos
  · rw [nearest_eq_finite_iff, Rat.num_intCast, Rat.den_intCast]
    exact ⟨Nat.lt_of_le_of_lt hle (mul_scale_lt_bound (Nat.le_refl _)),
      by rw [hm, Nat.mul_comm, signed_mul]⟩

theorem eq_zero_of_nearest {q : ℚ} (hden : q.den < 2 * scale) (h : nearest q = finite 0) :
    q = 0 := by
  have hle := (units_eq_zero_iff q.den_pos).1 (units_of_nearest h)
  have hnum : q.num.natAbs = 0 := by
    by_contra hne
    have hmul := Nat.le_mul_of_pos_left scale (Nat.pos_of_ne_zero hne)
    omega
  exact Rat.num_eq_zero.1 (Int.natAbs_eq_zero.1 hnum)

/-- No word but the number itself is rounded to the same double, when the numerator is below
`2 ^ 53` and the denominator too small for the number to vanish. -/
theorem nearest_eq_nearest_intCast_iff {q : ℚ} (hnum : q.num.natAbs < 2 ^ 53)
    (hden : q.den < 2 * scale) {n : Int} (hn : n.natAbs ≤ 2 ^ 63) :
    nearest q = nearest n ↔ q = n := by
  constructor
  · intro h
    obtain ⟨k, hk, hnear⟩ := exists_nearest_intCast hn
    rw [hnear] at h
    by_cases hzero : k = 0
    · rw [hzero, zero_mul] at h hnear
      have hone : (n : ℚ).den < 2 * scale := by
        have hpos := scale_pos
        rw [Rat.den_intCast]
        omega
      rw [eq_zero_of_nearest hden h, eq_zero_of_nearest hone hnear]
    · have hq := eq_of_nearest_whole h hnum hzero
      -- a word from `2 ^ 53` on is rounded to no less, and `q` lies below
      have hlt : n.natAbs < 2 ^ 53 := by
        by_contra hle
        have hmul := le_units Nat.one_pos (isDouble_mul_scale (Nat.le_refl _))
          (show 2 ^ 53 * 1 ≤ n.natAbs by omega)
        have hunits := units_of_nearest_whole hnear
        rw [Rat.num_intCast, Rat.den_intCast] at hunits
        rw [hunits] at hmul
        rw [hq, Rat.num_intCast] at hnum
        exact absurd (Nat.le_of_mul_le_mul_right hmul scale_pos) (Nat.not_le.2 hnum)
      rw [hq, eq_of_nearest_whole hnear (by rwa [Rat.num_intCast]) hzero]
  · rintro rfl
    rfl

theorem eq_ofInt_iff {x : Binary64} {n : Int} (hn : n.natAbs ≤ 2 ^ 63) :
    x.eq (ofInt n) = true ↔ x = nearest n := by
  obtain ⟨k, -, hk⟩ := exists_nearest_intCast hn
  rw [ofInt_eq_nearest, hk]
  generalize k * (scale : Int) = v
  cases x with
  | finite u => rw [eq, beq_iff_eq, finite.injEq]
  | infinite => simp [eq]
  | nan => simp [eq]

/-! ### Words -/

theorem ofIntClamp_of_le {n : Int} (h : n ≤ -2 ^ 63) : Int64.ofIntClamp n = Int64.minValue := by
  rcases Int.lt_or_eq_of_le h with hlt | rfl
  · rw [Int64.ofIntClamp, dif_neg (by rw [Int64.toInt_minValue]; omega)]
  · rw [← Int64.toInt_minValue, Int64.ofIntClamp_toInt]

theorem ofIntClamp_of_ge {n : Int} (h : 2 ^ 63 - 1 ≤ n) : Int64.ofIntClamp n = Int64.maxValue := by
  rcases Int.lt_or_eq_of_le h with hlt | rfl
  · rw [Int64.ofIntClamp, dif_pos (by rw [Int64.toInt_minValue]; omega),
      dif_neg (by rw [Int64.toInt_maxValue]; omega)]
  · rw [← Int64.toInt_maxValue, Int64.ofIntClamp_toInt]

theorem natAbs_toInt_le (n : Int64) : n.toInt.natAbs ≤ 2 ^ 63 := by
  have h := n.le_toInt
  have h' := n.toInt_lt
  omega

theorem toInt64_finite_mul_scale (k : Int) : (finite (k * scale)).toInt64 = Int64.ofIntClamp k := by
  rw [toInt64, Int.mul_tdiv_cancel _ (by exact_mod_cast scale_pos.ne')]

/-- A number with a numerator below `2 ^ 53` keeps its whole part. -/
theorem toInt64_nearest {q : ℚ} (hnum : q.num.natAbs < 2 ^ 53) :
    (nearest q).toInt64 = Int64.ofIntClamp (truncate q) := by
  have hlt : units q.num.natAbs q.den < bound := by
    have hle := units_le q.den_pos (isDouble_two_pow 53)
      (Nat.le_trans (Nat.le_of_lt hnum) (Nat.le_mul_of_pos_right _ q.den_pos))
    exact Nat.lt_of_le_of_lt hle (mul_scale_lt_bound (by decide))
  rw [nearest_eq, if_pos hlt, toInt64, signed_tdiv, units_div_scale q.den_pos hnum,
    truncate_eq_signed]

/-- A number beyond the words goes to the nearer bound. -/
theorem toInt64_nearest_of_ge {q : ℚ} (h : 2 ^ 63 ≤ |q|) :
    (nearest q).toInt64 = Int64.ofIntClamp (truncate q) := by
  have hnum : 2 ^ 63 * q.den ≤ q.num.natAbs := by
    rw [Rat.abs_def, Rat.divInt_eq_div, Int.cast_natCast, Int.cast_natCast,
      le_div_iff₀ (by exact_mod_cast q.den_pos)] at h
    exact_mod_cast h
  have hdiv : 2 ^ 63 ≤ q.num.natAbs / q.den := (Nat.le_div_iff_mul_le q.den_pos).2 hnum
  have hunits : 2 ^ 63 ≤ units q.num.natAbs q.den / scale :=
    (Nat.le_div_iff_mul_le scale_pos).2 (le_units q.den_pos (isDouble_two_pow 63) hnum)
  rw [nearest_eq, truncate_eq_signed]
  by_cases hneg : q < 0
  · have hbound : Int64.ofIntClamp (signed true (q.num.natAbs / q.den)) = Int64.minValue :=
      ofIntClamp_of_le (by rw [signed_true]; omega)
    rw [decide_eq_true hneg, hbound]
    split
    · rw [toInt64, signed_tdiv]
      exact ofIntClamp_of_le (by rw [signed_true]; omega)
    · rfl
  · have hbound : Int64.ofIntClamp (signed false (q.num.natAbs / q.den)) = Int64.maxValue :=
      ofIntClamp_of_ge (by rw [signed_false]; omega)
    rw [decide_eq_false hneg, hbound]
    split
    · rw [toInt64, signed_tdiv]
      exact ofIntClamp_of_ge (by rw [signed_false]; omega)
    · rfl

/-- The word of a double is rounded to that double again, exactly where the double is a whole number
within the bounds or at the first one beyond. -/
theorem nearest_toInt64_iff {q : ℚ} :
    nearest q = nearest (nearest q).toInt64.toInt ↔
      ∃ k : Int, k.natAbs ≤ 2 ^ 63 ∧ nearest q = finite (k * scale) := by
  constructor
  · intro h
    obtain ⟨k, hk, hnear⟩ := exists_nearest_intCast (natAbs_toInt_le (nearest q).toInt64)
    exact ⟨k, hk, h.trans hnear⟩
  · intro h
    obtain ⟨k, hk, hnear⟩ := h
    rw [hnear, toInt64_finite_mul_scale]
    rcases lt_or_ge k (2 ^ 63) with hlt | hge
    · rw [Int64.toInt_ofIntClamp (by rw [Int64.toInt_minValue]; omega)
        (by rw [Int64.toInt_maxValue]; omega)]
      have hdouble := isDouble_nearest hnear
      rw [Int.natAbs_mul, Int.natAbs_natCast] at hdouble
      exact (nearest_intCast hdouble (mul_scale_lt_bound hk)).symm
    · have hk' : k = 2 ^ 63 := by omega
      rw [hk', ofIntClamp_of_ge (by decide), Int64.toInt_maxValue, ← ofInt_eq_nearest]
      decide +kernel

end Binary64
end Numeral
end TableShell
