import Mathlib.Data.Nat.Dist
import Mathlib.Tactic.Ring
import TableShell.Numeral.Binary64

/-
Rounding to double precision, on magnitudes.

Magnitudes are counted in units, the least subnormal each, and an exact one is a quotient of two
whole numbers. Rounding takes the nearest double, of two the one with the even significand, and
depends on nothing but the value of the quotient.
-/
namespace TableShell
namespace Numeral

/-! ### The nearest whole number -/

theorem roundQuotient_cases (num den : Nat) :
    (roundQuotient num den = num / den ∧ 2 * (num % den) ≤ den) ∨
      (roundQuotient num den = num / den + 1 ∧ den ≤ 2 * (num % den)) := by
  unfold roundQuotient
  dsimp only
  split
  · exact Or.inl ⟨rfl, by omega⟩
  · split
    · exact Or.inr ⟨rfl, by omega⟩
    · rcases Nat.mod_two_eq_zero_or_one (num / den) with h | h
      · exact Or.inl ⟨by omega, by omega⟩
      · exact Or.inr ⟨by omega, by omega⟩

/-- Only a quotient halfway between two whole numbers goes to the even one for that reason. -/
theorem even_roundQuotient {num den : Nat} (h : 2 * (num % den) = den) :
    roundQuotient num den % 2 = 0 := by
  unfold roundQuotient
  dsimp only
  rw [if_neg (by omega), if_neg (by omega)]
  omega

theorem roundQuotient_mul_right (num den : Nat) {c : Nat} (hc : 0 < c) :
    roundQuotient (num * c) (den * c) = roundQuotient num den := by
  have hdouble : 2 * (num % den * c) = 2 * (num % den) * c := (Nat.mul_assoc _ _ _).symm
  unfold roundQuotient
  dsimp only
  rw [Nat.mul_div_mul_right _ _ hc, Nat.mul_mod_mul_right, hdouble]
  simp only [Nat.mul_lt_mul_right hc]

/-- A multiple is one of the two around a quotient, or further away from it than both. -/
theorem multiple_cases (k f d : Nat) :
    k = f ∨ k = f + 1 ∨ k * d + d ≤ f * d ∨ f * d + 2 * d ≤ k * d := by
  rcases Nat.lt_or_ge k f with h | h
  · have hle := Nat.mul_le_mul_right d h
    rw [Nat.succ_mul] at hle
    exact Or.inr (Or.inr (Or.inl hle))
  · rcases Nat.lt_or_ge (f + 1) k with h' | h'
    · have hle := Nat.mul_le_mul_right d h'
      rw [Nat.succ_mul, Nat.succ_mul] at hle
      exact Or.inr (Or.inr (Or.inr (by omega)))
    · omega

section Quotient

variable {num den : Nat} (hd : 0 < den)
include hd

theorem roundQuotient_nearest (num k : Nat) :
    Nat.dist num (roundQuotient num den * den) ≤ Nat.dist num (k * den) := by
  have hnum := Nat.div_add_mod' num den
  have hr := Nat.mod_lt num hd
  have hsucc : (num / den + 1) * den = num / den * den + den := Nat.succ_mul _ _
  unfold Nat.dist
  rcases roundQuotient_cases num den with ⟨hq, h⟩ | ⟨hq, h⟩ <;>
    rcases multiple_cases k (num / den) den with rfl | rfl | hk | hk <;>
    rw [hq] <;> omega

/-- As far from the quotient as the nearest multiple is another one only if both are halfway. -/
theorem even_roundQuotient_of_tie {k : Nat} (hk : k ≠ roundQuotient num den)
    (h : Nat.dist num (roundQuotient num den * den) = Nat.dist num (k * den)) :
    roundQuotient num den % 2 = 0 := by
  have hnum := Nat.div_add_mod' num den
  have hr := Nat.mod_lt num hd
  have hsucc : (num / den + 1) * den = num / den * den + den := Nat.succ_mul _ _
  apply even_roundQuotient
  unfold Nat.dist at h
  rcases roundQuotient_cases num den with ⟨hq, hle⟩ | ⟨hq, hle⟩ <;>
    rw [hq] at h hk <;>
    rcases multiple_cases k (num / den) den with rfl | rfl | hk' | hk' <;> omega

theorem roundQuotient_error (num : Nat) : 2 * Nat.dist num (roundQuotient num den * den) ≤ den := by
  have hnum := Nat.div_add_mod' num den
  have hr := Nat.mod_lt num hd
  have hsucc : (num / den + 1) * den = num / den * den + den := Nat.succ_mul _ _
  unfold Nat.dist
  rcases roundQuotient_cases num den with ⟨hq, h⟩ | ⟨hq, h⟩ <;> rw [hq] <;> omega

theorem roundQuotient_le {k : Nat} (h : num ≤ k * den) : roundQuotient num den ≤ k := by
  by_contra hlt
  have hmul := Nat.mul_lt_mul_of_pos_right (Nat.lt_of_not_le hlt) hd
  have hnear := roundQuotient_nearest hd num k
  unfold Nat.dist at hnear
  omega

theorem le_roundQuotient {k : Nat} (h : k * den ≤ num) : k ≤ roundQuotient num den := by
  by_contra hlt
  have hmul := Nat.mul_lt_mul_of_pos_right (Nat.lt_of_not_le hlt) hd
  have hnear := roundQuotient_nearest hd num k
  unfold Nat.dist at hnear
  omega

end Quotient

namespace Binary64

/-! ### Doubles -/

/-- A magnitude in units that a double has, but for the bound on its exponent: a significand of 53
bits, shifted. -/
def IsDouble (u : Nat) : Prop :=
  ∃ m k, m < 2 ^ 53 ∧ u = m * 2 ^ k

/-- The significand is even, when it is written with all its 53 bits where the unit allows that. -/
def IsEven (u : Nat) : Prop :=
  ∃ m k, 2 * m < 2 ^ 53 ∧ (k = 0 ∨ 2 ^ 52 ≤ 2 * m) ∧ u = 2 * m * 2 ^ k

theorem isDouble_of_le {m : Nat} (h : m ≤ 2 ^ 53) (k : Nat) : IsDouble (m * 2 ^ k) := by
  rcases Nat.lt_or_eq_of_le h with h | rfl
  · exact ⟨m, k, h, rfl⟩
  · exact ⟨2 ^ 52, k + 1, by decide, by rw [Nat.pow_succ 2 k, Nat.pow_succ 2 52]; ring⟩

/-- A double is a whole number of spacings, unless it is less than the doubles of that spacing. -/
theorem double_cases {u : Nat} (h : IsDouble u) (p : Nat) :
    (∃ k, u = k * 2 ^ p) ∨ (p ≠ 0 ∧ u < 2 ^ 52 * 2 ^ p) := by
  obtain ⟨m, k, hm, rfl⟩ := h
  rcases Nat.lt_or_ge k p with hk | hk
  · refine Or.inr ⟨by omega, ?_⟩
    calc m * 2 ^ k < 2 ^ 53 * 2 ^ k := Nat.mul_lt_mul_of_pos_right hm (Nat.two_pow_pos k)
      _ = 2 ^ (53 + k) := (Nat.pow_add 2 53 k).symm
      _ ≤ 2 ^ (52 + p) := Nat.pow_le_pow_right (by decide) (by omega)
      _ = 2 ^ 52 * 2 ^ p := Nat.pow_add 2 52 p
  · refine Or.inl ⟨m * 2 ^ (k - p), ?_⟩
    rw [Nat.mul_assoc, ← Nat.pow_add, Nat.sub_add_cancel hk]

/-- Doubles from `2 ^ (52 + j)` on are whole multiples of `2 ^ j`. -/
theorem dvd_of_isDouble {u j : Nat} (h : IsDouble u) (hj : 2 ^ 52 * 2 ^ j ≤ u) : 2 ^ j ∣ u := by
  rcases double_cases h j with ⟨k, rfl⟩ | ⟨-, hlt⟩
  · exact Nat.dvd_mul_left _ _
  · omega

/-! ### Rounding -/

/-- The doubles about a quotient stand two to this power apart. -/
def spacing (num den : Nat) : Nat :=
  (num / den).log2 - 52

theorem roundUnits_eq (num den : Nat) : roundUnits num den =
    roundQuotient num (den * 2 ^ spacing num den) * 2 ^ spacing num den := rfl

theorem roundUnits_mul_den (num den : Nat) : roundUnits num den * den =
    roundQuotient num (den * 2 ^ spacing num den) * (den * 2 ^ spacing num den) := by
  rw [roundUnits_eq]
  ring

section Rounding

variable {num den : Nat} (hd : 0 < den)
include hd

/-- A quotient has less than 54 bits in spacings, and 53 unless the spacing is one unit. -/
theorem spacing_spec (num : Nat) :
    num < 2 ^ 53 * (den * 2 ^ spacing num den) ∧
      (spacing num den = 0 ∨ 2 ^ 52 * (den * 2 ^ spacing num den) ≤ num) := by
  have hpow : ∀ j, 2 ^ j * (den * 2 ^ spacing num den) = 2 ^ (j + spacing num den) * den := by
    intro j
    rw [Nat.pow_add]
    ring
  rw [hpow, hpow, ← Nat.div_lt_iff_lt_mul hd, ← Nat.le_div_iff_mul_le hd, spacing]
  constructor
  · calc num / den < 2 ^ ((num / den).log2 + 1) := Nat.lt_log2_self
      _ ≤ 2 ^ (53 + ((num / den).log2 - 52)) := Nat.pow_le_pow_right (by decide) (by omega)
  · rcases Nat.eq_zero_or_pos ((num / den).log2 - 52) with h | h
    · exact Or.inl h
    · right
      have hne : num / den ≠ 0 := by
        intro hzero
        rw [hzero, Nat.log2_zero] at h
        omega
      have hlog : 52 + ((num / den).log2 - 52) = (num / den).log2 := by omega
      rw [hlog]
      exact Nat.log2_self_le hne

theorem spacing_pos (num : Nat) : 0 < den * 2 ^ spacing num den :=
  Nat.mul_pos hd (Nat.two_pow_pos _)

/-- A double is a whole number of spacings, unless the least double of this spacing parts it from
the quotient. -/
theorem spaced_cases (num : Nat) {v : Nat} (hv : IsDouble v) :
    (∃ k, v = k * 2 ^ spacing num den ∧ v * den = k * (den * 2 ^ spacing num den)) ∨
      (v * den < 2 ^ 52 * (den * 2 ^ spacing num den) ∧
        2 ^ 52 * (den * 2 ^ spacing num den) ≤ num) := by
  rcases double_cases hv (spacing num den) with ⟨k, hk⟩ | ⟨hne, hlt⟩
  · refine Or.inl ⟨k, hk, ?_⟩
    rw [hk]
    ring
  · refine Or.inr ⟨?_, (spacing_spec hd num).2.resolve_left hne⟩
    calc v * den < 2 ^ 52 * 2 ^ spacing num den * den := Nat.mul_lt_mul_of_pos_right hlt hd
      _ = 2 ^ 52 * (den * 2 ^ spacing num den) := by ring

theorem isDouble_roundUnits (num : Nat) : IsDouble (roundUnits num den) := by
  rw [roundUnits_eq]
  exact isDouble_of_le
    (roundQuotient_le (spacing_pos hd num) (Nat.le_of_lt (spacing_spec hd num).1)) _

/-- No double is nearer. -/
theorem roundUnits_nearest (num : Nat) {v : Nat} (hv : IsDouble v) :
    Nat.dist num (roundUnits num den * den) ≤ Nat.dist num (v * den) := by
  rw [roundUnits_mul_den]
  rcases spaced_cases hd num hv with ⟨k, -, hk⟩ | ⟨hlt, hle⟩
  · rw [hk]
    exact roundQuotient_nearest (spacing_pos hd _) num k
  · have hnear := roundQuotient_nearest (spacing_pos hd num) num (2 ^ 52)
    unfold Nat.dist at hnear ⊢
    omega

/-- Of two doubles that are equally near, the one with the even significand is taken. -/
theorem isEven_roundUnits {v : Nat} (hv : IsDouble v) (hne : v ≠ roundUnits num den)
    (h : Nat.dist num (roundUnits num den * den) = Nat.dist num (v * den)) :
    IsEven (roundUnits num den) := by
  have heven : roundQuotient num (den * 2 ^ spacing num den) % 2 = 0 := by
    rw [roundUnits_mul_den] at h
    rcases spaced_cases hd num hv with ⟨k, hv, hk⟩ | ⟨hlt, hle⟩
    · rw [hk] at h
      refine even_roundQuotient_of_tie (spacing_pos hd num) ?_ h
      rintro rfl
      exact hne (by rw [hv, roundUnits_eq])
    · have hnear := roundQuotient_nearest (spacing_pos hd num) num (2 ^ 52)
      unfold Nat.dist at hnear h
      omega
  have hle := roundQuotient_le (spacing_pos hd num) (Nat.le_of_lt (spacing_spec hd num).1)
  have hge : spacing num den = 0 ∨ 2 ^ 52 ≤ roundQuotient num (den * 2 ^ spacing num den) :=
    (spacing_spec hd num).2.imp_right (le_roundQuotient (spacing_pos hd num))
  rw [roundUnits_eq]
  generalize roundQuotient num (den * 2 ^ spacing num den) = m at *
  obtain ⟨m, rfl⟩ := Nat.dvd_of_mod_eq_zero heven
  rcases Nat.lt_or_eq_of_le hle with hlt | heq
  · exact ⟨m, spacing num den, hlt, hge, rfl⟩
  · -- rounded up to the next binade, where the significand is the least one
    refine ⟨2 ^ 51, spacing num den + 1, by decide, Or.inr (by decide), ?_⟩
    rw [heq, Nat.pow_succ 2 (spacing num den)]
    ring

/-- Rounding goes past no double. -/
theorem roundUnits_le {u : Nat} (hu : IsDouble u) (h : num ≤ u * den) : roundUnits num den ≤ u := by
  by_contra hlt
  have hmul := Nat.mul_lt_mul_of_pos_right (Nat.lt_of_not_le hlt) hd
  have hnear := roundUnits_nearest hd num hu
  unfold Nat.dist at hnear
  omega

theorem le_roundUnits {u : Nat} (hu : IsDouble u) (h : u * den ≤ num) : u ≤ roundUnits num den := by
  by_contra hlt
  have hmul := Nat.mul_lt_mul_of_pos_right (Nat.lt_of_not_le hlt) hd
  have hnear := roundUnits_nearest hd num hu
  unfold Nat.dist at hnear
  omega

/-- From the least double with a significand of 53 bits on, rounding is off by one part in `2 ^ 53`
at most. -/
theorem roundUnits_error (h : 2 ^ 52 * den ≤ num) :
    2 ^ 53 * Nat.dist num (roundUnits num den * den) ≤ num := by
  have hhalf := roundQuotient_error (spacing_pos hd num) num
  rw [← roundUnits_mul_den] at hhalf
  rcases (spacing_spec hd num).2 with hzero | hle
  · rw [hzero, Nat.pow_zero, Nat.mul_one] at hhalf
    omega
  · omega

end Rounding

theorem roundUnits_mul_right (num den : Nat) {c : Nat} (hc : 0 < c) :
    roundUnits (num * c) (den * c) = roundUnits num den := by
  have hspacing : spacing (num * c) (den * c) = spacing num den := by
    rw [spacing, spacing, Nat.mul_div_mul_right _ _ hc]
  rw [roundUnits_eq, roundUnits_eq, hspacing, Nat.mul_right_comm, roundQuotient_mul_right _ _ hc]

/-- Rounding depends on the value of the quotient alone. -/
theorem roundUnits_congr {num den num' den' : Nat} (hd : 0 < den) (hd' : 0 < den')
    (h : num * den' = num' * den) : roundUnits num den = roundUnits num' den' := by
  rw [← roundUnits_mul_right num den hd', h, Nat.mul_comm den den', roundUnits_mul_right _ _ hd]

end Binary64
end Numeral
end TableShell
