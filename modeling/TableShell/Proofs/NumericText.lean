import TableShell.Value
import TableShell.Proofs.ReadNumbers

/-
Numbers in texts, stored as words and compared with words.

Plain digits are stored and, within the bounds, compared exactly. Every other spelling goes through
the nearest double on both ways, so that an answer is wrong exactly where that double is one of
another number.
-/
namespace TableShell

namespace Numeral.Spelling

open Binary64

/-- The nearest double is a whole number within the bounds of a word, or the first one beyond. -/
def RoundsToWhole (s : Spelling) : Prop :=
  ∃ k : Int, k.natAbs ≤ 2 ^ 63 ∧ nearest s.value = finite (k * scale)

theorem roundsToWhole_of_value_eq {s : Spelling} {m : Int} (h : s.value = m)
    (hm : m.natAbs ≤ 2 ^ 63) : s.RoundsToWhole := by
  rw [RoundsToWhole, h]
  exact exists_nearest_intCast hm

/-- A number with a numerator below `2 ^ 53` is rounded to a whole number only if it is one, unless
it vanishes. -/
theorem roundsToWhole_iff {s : Spelling} (hnum : s.value.num.natAbs < 2 ^ 53)
    (hden : s.value.den < 2 * scale) : s.RoundsToWhole ↔ ∃ m : Int, s.value = m := by
  constructor
  · intro h
    obtain ⟨k, -, hk⟩ := h
    by_cases hzero : k = 0
    · rw [hzero, zero_mul] at hk
      exact ⟨0, by rw [eq_zero_of_nearest hden hk, Int.cast_zero]⟩
    · exact ⟨k, eq_of_nearest_whole hk hnum hzero⟩
  · intro h
    obtain ⟨m, hm⟩ := h
    rw [hm, Rat.num_intCast] at hnum
    exact roundsToWhole_of_value_eq hm (by omega)

end Numeral.Spelling

namespace Value

open Numeral Binary64

section Spelled

variable {text : String} {s : Spelling} (h : Text.trim text.toList = s.text)
include h

theorem readInt64_of_not_isWord (hs : ¬ s.IsWord) :
    readInt64 text = (nearest s.value).toInt64 := by
  simp only [readInt64, h, Spelling.readInt64?_eq_none hs, s.read?_text, ofDecimal_eq_nearest,
    s.value_decimal]

theorem readInt64_of_isWord {n : Int64} (hp : s.IsPlain) (hn : s.value = n.toInt) :
    readInt64 text = n := by
  simp only [readInt64, h, Spelling.readInt64?_eq_some_iff.2 ⟨hp, hn⟩]

/-- Plain digits are stored exactly, or as the nearer bound. -/
theorem readInt64_of_isPlain (hp : s.IsPlain) :
    readInt64 text = Int64.ofIntClamp (truncate s.value) := by
  have hm := Spelling.value_of_isPlain hp
  by_cases hw : s.IsWord
  · obtain ⟨-, n, hn⟩ := hw
    rw [readInt64_of_isWord h hp hn, hn, truncate_intCast, Int64.ofIntClamp_toInt]
  · rw [readInt64_of_not_isWord h hw]
    refine toInt64_nearest_of_ge ?_
    by_contra hlt
    rw [hm] at hlt
    have habs : |signed s.sign.negative (digitsValue s.whole)| < 2 ^ 63 := by
      exact_mod_cast not_le.1 hlt
    rw [abs_lt] at habs
    -- otherwise a word holds the number
    refine hw ⟨hp, Int64.ofIntClamp (signed s.sign.negative (digitsValue s.whole)), ?_⟩
    rw [hm, Int64.toInt_ofIntClamp (by rw [Int64.toInt_minValue]; omega)
      (by rw [Int64.toInt_maxValue]; omega)]

theorem equalsNumeral_of_isWord (hw : s.IsWord) (n : Int64) :
    equalsNumeral n text = true ↔ s.value = n.toInt := by
  obtain ⟨hp, m, hm⟩ := hw
  simp only [equalsNumeral, h, Spelling.readInt64?_eq_some_iff.2 ⟨hp, hm⟩, beq_iff_eq, hm,
    Int.cast_inj, Int64.toInt_inj]

theorem equalsNumeral_of_not_isWord (hw : ¬ s.IsWord) (n : Int64) :
    equalsNumeral n text = true ↔ nearest s.value = nearest n.toInt := by
  simp only [equalsNumeral, h, Spelling.readInt64?_eq_none hw, s.readDouble?_text,
    eq_ofInt_iff (natAbs_toInt_le n)]

/-! ### Comparison -/

theorem looselyEquals_of_value_eq {n : Int64} (hn : s.value = n.toInt) :
    (int n).looselyEquals text = true := by
  rw [looselyEquals]
  by_cases hw : s.IsWord
  · exact (equalsNumeral_of_isWord h hw n).2 hn
  · exact (equalsNumeral_of_not_isWord h hw n).2 (by rw [hn])

/-- A word always meets the spellings of its own number. Of the others it meets none that is itself
a word in plain digits, and exactly those whose number is rounded to the same double: none with a
numerator below `2 ^ 53`, unless it vanishes. -/
theorem looselyEquals_exact_iff (n : Int64) :
    (s.value = n.toInt → (int n).looselyEquals text = true) ∧
      (((int n).looselyEquals text = true ↔ s.value = n.toInt) ↔
        s.IsWord ∨ s.value = n.toInt ∨ nearest s.value ≠ nearest n.toInt) ∧
      (s.value.num.natAbs < 2 ^ 53 → s.value.den < 2 * scale →
        ((int n).looselyEquals text = true ↔ s.value = n.toInt)) := by
  have hself : s.value = n.toInt → (int n).looselyEquals text = true :=
    looselyEquals_of_value_eq h
  by_cases hw : s.IsWord
  · have hmatch : (int n).looselyEquals text = true ↔ s.value = n.toInt :=
      equalsNumeral_of_isWord h hw n
    exact ⟨hself, iff_of_true hmatch (Or.inl hw), fun _ _ => hmatch⟩
  · have hmatch : (int n).looselyEquals text = true ↔ nearest s.value = nearest n.toInt :=
      equalsNumeral_of_not_isWord h hw n
    refine ⟨hself, ?_, ?_⟩
    · rw [hmatch]
      constructor
      · intro hexact
        by_cases hn : nearest s.value = nearest n.toInt
        · exact Or.inr (Or.inl (hexact.1 hn))
        · exact Or.inr (Or.inr hn)
      · intro hcases
        rcases hcases with hword | heq | hne
        · exact absurd hword hw
        · exact iff_of_true (by rw [heq]) heq
        · exact iff_of_false hne fun heq => hne (by rw [heq])
    · intro hnum hden
      rw [hmatch]
      exact nearest_eq_nearest_intCast_iff hnum hden (natAbs_toInt_le n)

end Spelled

/-- A sign, a point and a power of ten about the number of a word, and a number between words. -/
theorem looselyEquals_exact_pointed :
    (int 65).looselyEquals " +6.50e1" = true ∧ ¬ (int 6).looselyEquals "6.5" = true := by
  let s : Spelling := .mk .plus ['6'] (some ['5', '0']) (some (.mk 'e' .none ['1']))
  let s' : Spelling := .mk .none ['6'] (some ['5']) none
  have h : Text.trim " +6.50e1".toList = s.text := by decide +kernel
  have h' : Text.trim "6.5".toList = s'.text := by decide +kernel
  have hnum : s'.value.num.natAbs < 2 ^ 53 := by decide +kernel
  have hden : s'.value.den < 2 * scale := by decide +kernel
  have hne : s'.value ≠ (6 : Int64).toInt := by decide +kernel
  refine ⟨(looselyEquals_exact_iff h 65).1 (by decide +kernel), ?_⟩
  rw [(looselyEquals_exact_iff h' 6).2.2 hnum hden]
  exact hne

/-- The greatest word meets the number behind it, which no word is. Both are rounded to the same
double. -/
theorem looselyEquals_next_of_max :
    ∃ s : Spelling, Text.trim "9223372036854775808".toList = s.text ∧
      ¬ ((int 9223372036854775807).looselyEquals "9223372036854775808" = true ↔
        s.value = (9223372036854775807 : Int64).toInt) :=
  ⟨.mk .none "9223372036854775808".toList none none, by decide +kernel⟩

/-! ### Storing -/

section Stored

variable {text : String} {s : Spelling} (h : Text.trim text.toList = s.text)
include h

/-- The word stored from a spelling meets it exactly where the number is rounded to a whole one. -/
theorem looselyEquals_coerce_iff :
    ((Value.text text).coerce .int).looselyEquals text = true ↔ s.RoundsToWhole := by
  rw [coerce, looselyEquals]
  by_cases hw : s.IsWord
  · obtain ⟨hp, n, hn⟩ := hw
    rw [readInt64_of_isWord h hp hn]
    exact iff_of_true ((equalsNumeral_of_isWord h ⟨hp, n, hn⟩ n).2 hn)
      (Spelling.roundsToWhole_of_value_eq hn (natAbs_toInt_le n))
  · rw [equalsNumeral_of_not_isWord h hw, readInt64_of_not_isWord h hw, nearest_toInt64_iff,
      Spelling.RoundsToWhole]

/-- What is stored from a spelling is the whole part of its number, or the nearer bound, exactly
where the spelling is in plain digits or rounding leaves the whole part as it is. That is so beyond
the bounds, and of every number with a numerator below `2 ^ 53`. Spellings of one number are stored
alike, unless only one of them is in plain digits. -/
theorem coerce_int_exact_iff :
    ((Value.text text).coerce .int = int (Int64.ofIntClamp (truncate s.value)) ↔
        s.IsPlain ∨ (nearest s.value).toInt64 = Int64.ofIntClamp (truncate s.value)) ∧
      (2 ^ 63 ≤ |s.value| ∨ s.value.num.natAbs < 2 ^ 53 →
        (Value.text text).coerce .int = int (Int64.ofIntClamp (truncate s.value))) ∧
      ∀ (other : String) (s' : Spelling), Text.trim other.toList = s'.text → s'.value = s.value →
        (s'.IsPlain ↔ s.IsPlain) →
          (Value.text other).coerce .int = (Value.text text).coerce .int := by
  simp only [coerce, int.injEq]
  by_cases hp : s.IsPlain
  · have hexact := readInt64_of_isPlain h hp
    refine ⟨iff_of_true hexact (Or.inl hp), fun _ => hexact, ?_⟩
    intro other s' h' hvalue hplain
    rw [hexact, readInt64_of_isPlain h' (hplain.2 hp), hvalue]
  · have hstored := readInt64_of_not_isWord h fun hw => hp hw.1
    refine ⟨?_, ?_, ?_⟩
    · rw [hstored, or_iff_right hp]
    · intro hcases
      rw [hstored]
      rcases hcases with hlarge | hshort
      · exact toInt64_nearest_of_ge hlarge
      · exact toInt64_nearest hshort
    · intro other s' h' hvalue hplain
      rw [hstored, readInt64_of_not_isWord h' fun hw => hp (hplain.1 hw.1), hvalue]

end Stored

/-- A number cut off, one beyond the bounds, and two spellings of one number. -/
theorem coerce_int_exact_small :
    (text "-12.5e-1").coerce .int = int (-1) ∧
      (text "1e30").coerce .int = int 9223372036854775807 ∧
      (text "1e3").coerce .int = (text "1000.0").coerce .int := by
  let s : Spelling := .mk .minus ['1', '2'] (some ['5'])
    (some (.mk 'e' .minus ['1']))
  let large : Spelling := .mk .none ['1'] none (some (.mk 'e' .none ['3', '0']))
  let thousand : Spelling := .mk .none ['1'] none (some (.mk 'e' .none ['3']))
  let pointed : Spelling := .mk .none ['1', '0', '0', '0'] (some ['0']) none
  have h : Text.trim "-12.5e-1".toList = s.text := by decide +kernel
  have hlarge : Text.trim "1e30".toList = large.text := by decide +kernel
  have hthousand : Text.trim "1e3".toList = thousand.text := by decide +kernel
  have hpointed : Text.trim "1000.0".toList = pointed.text := by decide +kernel
  refine ⟨?_, ?_, ?_⟩
  · rw [(coerce_int_exact_iff h).2.1 (Or.inr (by decide +kernel))]
    decide +kernel
  · rw [(coerce_int_exact_iff hlarge).2.1 (Or.inl (by decide +kernel))]
    decide +kernel
  · refine (coerce_int_exact_iff hpointed).2.2 _ thousand hthousand (by decide +kernel) ?_
    exact iff_of_false (fun hp => Option.some_ne_none _ hp.2) (fun hp => Option.some_ne_none _ hp.1)

/-- From `2 ^ 53` on a point in the text can change the word stored. -/
theorem coerce_int_rounded :
    ∃ s s' : Spelling, Text.trim "9007199254740993.0".toList = s.text ∧
      Text.trim "9007199254740993".toList = s'.text ∧ s.value = s'.value ∧
      (text "9007199254740993.0").coerce .int ≠ int (Int64.ofIntClamp (truncate s.value)) ∧
      (text "9007199254740993.0").coerce .int ≠ (text "9007199254740993").coerce .int :=
  ⟨.mk .none "9007199254740993".toList (some ['0']) none,
    .mk .none "9007199254740993".toList none none, by decide +kernel⟩

end Value
end TableShell
