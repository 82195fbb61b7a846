import Mathlib.Algebra.Order.Field.Basic
import Mathlib.Algebra.Order.Field.Rat
import Mathlib.Algebra.Order.Ring.Cast
import Mathlib.Tactic.Linarith
import TableShell.Proofs.Rounding

/-
The double nearest to a rational number.

A decimal and a word become doubles through the same rounding, to the nearest double and of two to
the one with the even significand. A number with a numerator below `2 ^ 53` in its lowest terms is
rounded neither onto nor past a whole number.
-/
namespace TableShell
namespace Numeral

/-! ### Signs -/

theorem signed_false (n : Nat) : signed false n = n := rfl

theorem signed_true (n : Nat) : signed true n = -n := rfl

theorem signed_natAbs (n : Int) : signed (decide (n < 0)) n.natAbs = n := by
  by_cases h : n < 0
  · rw [decide_eq_true h, signed_true]
    omega
  · rw [decide_eq_false h, signed_false]
    omega

theorem natAbs_signed (negative : Bool) (n : Nat) : (signed negative n).natAbs = n := by
  cases negative
  · exact Int.natAbs_natCast n
  · rw [signed_true, Int.natAbs_neg, Int.natAbs_natCast]

theorem signed_zero (negative : Bool) : signed negative 0 = 0 := by
  cases negative <;> rfl

theorem signed_neg_iff {negative : Bool} {n : Nat} (hn : n ≠ 0) :
    signed negative n < 0 ↔ negative = true := by
  cases negative
  · rw [signed_false]
    exact iff_of_false (by omega) Bool.false_ne_true
  · rw [signed_true]
    exact iff_of_true (by omega) rfl

theorem signed_mul (negative : Bool) (n m : Nat) :
    signed negative (n * m) = signed negative n * m := by
  cases negative
  · rw [signed_false, signed_false, Int.natCast_mul]
  · rw [signed_true, signed_true, Int.natCast_mul, Int.neg_mul]

theorem signed_tdiv (negative : Bool) (n d : Nat) :
    (signed negative n).tdiv d = signed negative (n / d) := by
  cases negative
  · rfl
  · rw [signed_true, signed_true, Int.neg_tdiv]
    rfl

theorem natAbs_signed_sub_signed (negative : Bool) (x y : Nat) :
    (signed negative x - signed negative y).natAbs = Nat.dist x y := by
  unfold Nat.dist
  cases negative
  · rw [signed_false, signed_false]
    omega
  · rw [signed_true, signed_true]
    omega

theorem dist_natAbs_le (negative : Bool) (x : Nat) (v : Int) :
    Nat.dist x v.natAbs ≤ (signed negative x - v).natAbs := by
  unfold Nat.dist
  cases negative
  · rw [signed_false]
    omega
  · rw [signed_true]
    omega

namespace Binary64

/-! ### Magnitudes in units -/

theorem natPow_eq (b k : Nat) : Nat.pow b k = b ^ k := rfl

theorem exists_scale : ∃ k, 52 < k ∧ scale = 2 ^ k :=
  ⟨1074, by decide, natPow_eq _ _⟩

theorem scale_pos : 0 < scale := by
  obtain ⟨k, -, hk⟩ := exists_scale
  rw [hk]
  exact Nat.two_pow_pos k

theorem isDouble_mul_scale {m : Nat} (h : m ≤ 2 ^ 53) : IsDouble (m * scale) := by
  obtain ⟨k, -, hk⟩ := exists_scale
  rw [hk]
  exact isDouble_of_le h k

theorem isDouble_two_pow (j : Nat) : IsDouble (2 ^ j * scale) := by
  obtain ⟨k, -, hk⟩ := exists_scale
  exact ⟨1, j + k, by decide, by rw [hk, Nat.one_mul, Nat.pow_add]⟩

/-- The units of the double nearest to a quotient. -/
def units (num den : Nat) : Nat :=
  roundUnits (num * scale) den

/-- A magnitude of this many units is infinite. -/
def bound : Nat :=
  Nat.pow 2 1024 * scale

theorem exists_bound : ∃ k, 63 < k ∧ bound = 2 ^ k * scale := by
  have h : ∃ k, 63 < k ∧ bound = Nat.pow 2 k * scale := ⟨_, by decide, rfl⟩
  exact h

theorem bound_pos : 0 < bound := by
  obtain ⟨k, -, hk⟩ := exists_bound
  rw [hk]
  exact Nat.mul_pos (Nat.two_pow_pos k) scale_pos

theorem ofQuotient_eq (negative : Bool) (num den : Nat) :
    ofQuotient negative num den =
      if units num den < bound then finite (signed negative (units num den))
      else infinite negative := by
  rw [bound, units, ofQuotient]

theorem roundUnits_eq_zero_iff {num den : Nat} (hd : 0 < den) :
    roundUnits num den = 0 ↔ 2 * num ≤ den := by
  constructor
  · intro h
    have hnear := roundUnits_nearest hd num (v := 1) ⟨1, 0, by decide, rfl⟩
    rw [h] at hnear
    unfold Nat.dist at hnear
    omega
  · intro h
    by_contra hne
    have hzero : IsDouble 0 := ⟨0, 0, by decide, rfl⟩
    have hnear := roundUnits_nearest hd num hzero
    have hmul := Nat.mul_le_mul_right den (Nat.one_le_iff_ne_zero.2 hne)
    unfold Nat.dist at hnear
    -- the least double is as far off as zero, and its significand is odd
    have hone : roundUnits num den = 1 := by
      by_contra hone
      have hmul := Nat.mul_le_mul_right den (show 2 ≤ roundUnits num den by omega)
      omega
    obtain ⟨m, k, -, hk, heq⟩ := isEven_roundUnits hd hzero (Ne.symm hne) (by
      rw [hone] at hnear ⊢
      unfold Nat.dist
      omega)
    rw [hone, Nat.mul_assoc] at heq
    omega

section Units

variable {num den : Nat} (hd : 0 < den)
include hd

theorem isDouble_units (num : Nat) : IsDouble (units num den) :=
  isDouble_roundUnits hd _

theorem units_le {m : Nat} (hm : IsDouble (m * scale)) (h : num ≤ m * den) :
    units num den ≤ m * scale := by
  refine roundUnits_le hd hm ?_
  rw [Nat.mul_right_comm]
  exact Nat.mul_le_mul_right scale h

theorem le_units {m : Nat} (hm : IsDouble (m * scale)) (h : m * den ≤ num) :
    m * scale ≤ units num den := by
  refine le_roundUnits hd hm ?_
  rw [Nat.mul_right_comm]
  exact Nat.mul_le_mul_right scale h

/-- A double is rounded to itself. -/
theorem units_of_isDouble {u : Nat} (hu : IsDouble u) (h : num * scale = u * den) :
    units num den = u :=
  Nat.le_antisymm (roundUnits_le hd hu (Nat.le_of_eq h)) (le_roundUnits hd hu (Nat.le_of_eq h.symm))

theorem units_eq_zero_iff : units num den = 0 ↔ 2 * (num * scale) ≤ den :=
  roundUnits_eq_zero_iff hd

theorem units_congr {num' den' : Nat} (hd' : 0 < den') (h : num * den' = num' * den) :
    units num den = units num' den' := by
  refine roundUnits_congr hd hd' ?_
  rw [Nat.mul_right_comm, h, Nat.mul_right_comm]

/-- A quotient with a numerator below `2 ^ 53` is rounded to a whole number, zero apart, only if it
is that number: from any other it is at least one part in the numerator away. -/
theorem eq_mul_of_units (hnum : num < 2 ^ 53) {k : Nat} (hk : k ≠ 0)
    (h : units num den = k * scale) : num = k * den := by
  -- a quotient for which rounding may be off by more than its share is rounded to less than one
  have hnormal : 2 ^ 52 * den ≤ num * scale := by
    by_contra hlt
    have hle : units num den ≤ 2 ^ 52 :=
      roundUnits_le hd ⟨2 ^ 52, 0, by decide, rfl⟩ (Nat.le_of_not_le hlt)
    have hscale : 2 ^ 52 < scale := by
      obtain ⟨j, hj, hscale⟩ := exists_scale
      rw [hscale]
      exact Nat.pow_lt_pow_right (by decide) hj
    have hmul := Nat.le_mul_of_pos_left scale (Nat.pos_of_ne_zero hk)
    omega
  have herror := roundUnits_error hd hnormal
  rw [← units, h, Nat.mul_right_comm, Nat.dist_mul_right, ← Nat.mul_assoc] at herror
  have hdist := Nat.le_of_mul_le_mul_right herror scale_pos
  exact Nat.eq_of_dist_eq_zero (by omega)

theorem units_div_scale (hnum : num < 2 ^ 53) : units num den / scale = num / den := by
  have hlt : num / den < 2 ^ 53 := Nat.lt_of_le_of_lt (Nat.div_le_self num den) hnum
  have hfloor := Nat.div_mul_le_self num den
  have hceil : num < (num / den + 1) * den := by
    rw [Nat.mul_comm]
    exact Nat.lt_mul_div_succ num hd
  refine Nat.div_eq_of_lt_le (le_units hd (isDouble_mul_scale (Nat.le_of_lt hlt)) hfloor) ?_
  refine Nat.lt_of_le_of_ne
    (units_le hd (isDouble_mul_scale hlt) (Nat.le_of_lt hceil)) ?_
  intro h
  exact Nat.ne_of_lt hceil (eq_mul_of_units hd hnum (Nat.succ_ne_zero _) h)

end Units

/-! ### The nearest double -/

/-- The double nearest to a number. -/
def nearest (q : ℚ) : Binary64 :=
  ofQuotient (decide (q < 0)) q.num.natAbs q.den

theorem ofInt_eq_nearest (n : Int) : ofInt n = nearest n := by
  simp only [ofInt, nearest, Rat.num_intCast, Rat.den_intCast, Int.cast_lt_zero]

/-- The same number as another quotient, up to its sign. -/
theorem natAbs_num_mul {q : ℚ} {n : Int} {den : Nat} (hd : 0 < den) (h : q = n / den) :
    q.num.natAbs * den = n.natAbs * q.den := by
  have hmul : q.num * den = n * q.den := by
    have hq : (q.num : ℚ) / q.den = n / den := by rw [Rat.num_div_den, h]
    rw [div_eq_div_iff (by exact_mod_cast q.den_nz) (by exact_mod_cast hd.ne')] at hq
    exact_mod_cast hq
  have habs := congrArg Int.natAbs hmul
  rwa [Int.natAbs_mul, Int.natAbs_mul, Int.natAbs_natCast, Int.natAbs_natCast] at habs

theorem ofQuotient_eq_nearest {negative : Bool} {num den : Nat} (hd : 0 < den) {q : ℚ}
    (h : q = signed negative num / den) : ofQuotient negative num den = nearest q := by
  have hunits : units q.num.natAbs q.den = units num den := by
    refine units_congr q.den_pos hd ?_
    rw [natAbs_num_mul hd h, natAbs_signed]
  rw [nearest, ofQuotient_eq, ofQuotient_eq, hunits]
  rcases Nat.eq_zero_or_pos num with rfl | hnum
  · rw [(units_eq_zero_iff hd).2 (by omega), signed_zero, signed_zero, if_pos bound_pos,
      if_pos bound_pos]
  · have hsign : q < 0 ↔ negative = true := by
      rw [h, ← signed_neg_iff hnum.ne', div_lt_iff₀ (by exact_mod_cast hd), zero_mul,
        Int.cast_lt_zero]
    simp only [hsign, Bool.decide_eq_true]

theorem nearest_eq (q : ℚ) :
    nearest q =
      if units q.num.natAbs q.den < bound then
        finite (signed (decide (q < 0)) (units q.num.natAbs q.den))
      else infinite (decide (q < 0)) :=
  ofQuotient_eq _ _ _

theorem num_eq_signed (q : ℚ) : q.num = signed (decide (q < 0)) q.num.natAbs := by
  have h := signed_natAbs q.num
  rw [decide_eq_decide.2 Rat.num_neg] at h
  exact h.symm

theorem nearest_eq_finite_iff {q : ℚ} {u : Int} :
    nearest q = finite u ↔
      units q.num.natAbs q.den < bound ∧
        signed (decide (q < 0)) (units q.num.natAbs q.den) = u := by
  rw [nearest_eq]
  split
  · next h => simp [h]
  · next h => simp [h]

theorem units_of_nearest {q : ℚ} {u : Int} (h : nearest q = finite u) :
    units q.num.natAbs q.den = u.natAbs := by
  rw [← (nearest_eq_finite_iff.1 h).2, natAbs_signed]

section Whole

variable {q : ℚ} {k : Int} (h : nearest q = finite (k * scale))
include h

theorem units_of_nearest_whole : units q.num.natAbs q.den = k.natAbs * scale := by
  rw [units_of_nearest h, Int.natAbs_mul, Int.natAbs_natCast]

/-- A whole number has the sign of the number rounded to it. -/
theorem eq_signed_of_nearest_whole : k = signed (decide (q < 0)) k.natAbs := by
  have hsigned := (nearest_eq_finite_iff.1 h).2
  rw [units_of_nearest_whole h, signed_mul] at hsigned
  exact (Int.eq_of_mul_eq_mul_right (by exact_mod_cast scale_pos.ne') hsigned).symm

/-- A number with a numerator below `2 ^ 53` is rounded to a whole number, zero apart, only if it is
that number. -/
theorem eq_of_nearest_whole (hnum : q.num.natAbs < 2 ^ 53) (hk : k ≠ 0) : q = k := by
  have habs := eq_mul_of_units q.den_pos hnum (Int.natAbs_ne_zero.2 hk) (units_of_nearest_whole h)
  have hmul : q.num = k * q.den := by
    rw [num_eq_signed q, habs, signed_mul, ← eq_signed_of_nearest_whole h]
  rw [← Rat.num_div_den q, hmul, Int.cast_mul, Int.cast_natCast,
    mul_div_cancel_right₀ _ (by exact_mod_cast q.den_nz)]

end Whole

/-! ### The distance to the nearest double -/

theorem abs_mul_scale_sub (q : ℚ) (u : Int) :
    |q * scale - u| = ((q.num * scale - u * q.den).natAbs : ℚ) / q.den := by
  have hd : (0 : ℚ) < q.den := by exact_mod_cast q.den_pos
  have hq : q * scale - u = (q.num * scale - u * q.den) / q.den := by
    rw [sub_div, mul_div_cancel_right₀ _ hd.ne', mul_div_right_comm, Rat.num_div_den]
  rw [hq, abs_div, abs_of_pos hd, Nat.cast_natAbs]
  push_cast
  rfl

theorem num_mul_scale (q : ℚ) :
    q.num * scale = signed (decide (q < 0)) (q.num.natAbs * scale) := by
  rw [signed_mul, ← num_eq_signed]

/-- A number is as far from a double as their magnitudes are apart, or further. -/
theorem dist_le_abs_sub (q : ℚ) (v : Int) :
    (Nat.dist (q.num.natAbs * scale) (v.natAbs * q.den) : ℚ) / q.den ≤ |q * scale - v| := by
  have hle := dist_natAbs_le (decide (q < 0)) (q.num.natAbs * scale) (v * q.den)
  rw [← num_mul_scale, Int.natAbs_mul, Int.natAbs_natCast] at hle
  rw [abs_mul_scale_sub, div_le_div_iff_of_pos_right (by exact_mod_cast q.den_pos)]
  exact_mod_cast hle

section Distance

variable {q : ℚ} {u : Int} (h : nearest q = finite u)
include h

theorem abs_sub_nearest :
    |q * scale - u| = (Nat.dist (q.num.natAbs * scale) (u.natAbs * q.den) : ℚ) / q.den := by
  have hu : u * q.den = signed (decide (q < 0)) (u.natAbs * q.den) := by
    rw [signed_mul, ← units_of_nearest h, (nearest_eq_finite_iff.1 h).2]
  rw [abs_mul_scale_sub, num_mul_scale, hu, natAbs_signed_sub_signed]

theorem isDouble_nearest : IsDouble u.natAbs := by
  rw [← units_of_nearest h]
  exact isDouble_units q.den_pos _

theorem dist_nearest_le {v : Nat} (hv : IsDouble v) :
    Nat.dist (q.num.natAbs * scale) (u.natAbs * q.den) ≤
      Nat.dist (q.num.natAbs * scale) (v * q.den) := by
  rw [← units_of_nearest h]
  exact roundUnits_nearest q.den_pos _ hv

/-- No double is nearer to a number than the one it is rounded to. -/
theorem abs_sub_nearest_le {v : Int} (hv : IsDouble v.natAbs) :
    |q * scale - u| ≤ |q * scale - v| := by
  rw [abs_sub_nearest h]
  refine le_trans ?_ (dist_le_abs_sub q v)
  rw [div_le_div_iff_of_pos_right (by exact_mod_cast q.den_pos)]
  exact_mod_cast dist_nearest_le h hv

/-- Of two doubles equally near, a number is rounded to the one with the even significand. -/
theorem isEven_nearest_of_tie {v : Int} (hv : IsDouble v.natAbs) (hne : v ≠ u)
    (heq : |q * scale - u| = |q * scale - v|) : IsEven u.natAbs := by
  by_cases hsame : v.natAbs = u.natAbs
  · -- the double on the other side of zero is as far off only from zero
    have hv' : v = -u := by omega
    have hu : (u : ℚ) ≠ 0 := by exact_mod_cast (show u ≠ 0 by omega)
    have hs : (scale : ℚ) ≠ 0 := by exact_mod_cast scale_pos.ne'
    rw [hv', Int.cast_neg, sub_neg_eq_add] at heq
    have hq : q = 0 := by
      rcases abs_eq_abs.1 heq with hplus | hminus
      · exact absurd (by linarith) hu
      · exact (mul_eq_zero.1 (show q * scale = 0 by linarith)).resolve_right hs
    have hzero : units 0 (0 : ℚ).den = 0 := (units_eq_zero_iff (Rat.den_pos 0)).2 (by omega)
    have hunits := units_of_nearest h
    rw [hq, Rat.num_zero, Int.natAbs_zero, hzero] at hunits
    omega
  · have hle := dist_le_abs_sub q v
    rw [← heq, abs_sub_nearest h, div_le_div_iff_of_pos_right (by exact_mod_cast q.den_pos)] at hle
    have htie := Nat.le_antisymm (dist_nearest_le h hv) (by exact_mod_cast hle)
    rw [← units_of_nearest h] at hsame htie ⊢
    exact isEven_roundUnits q.den_pos hv hsame htie

end Distance

end Binary64
end Numeral
end TableShell
