import TableShell.Name
import TableShell.Text.Blank
import TableShell.Text.Word

/-
Names and keywords in a text.

A name is a run of word characters, so a keyword is found in it only where the whole name is the
keyword. What is no word character parts names and is never the start of a keyword.
-/
namespace TableShell

namespace Name

open Text

theorem ne_of_isNameChar {c d : Char} (hc : isNameChar c = true) (hd : isNameChar d = false) :
    c ≠ d := by
  rintro rfl
  rw [hd] at hc
  exact absurd hc (by decide)

theorem isWordChar_of_isNameChar {c : Char} (h : isNameChar c = true) : isWordChar c = true := by
  rw [isWordChar, show (c.isAlphanum || c == '_') = true from h, Bool.true_or]

/-- Name characters lie between the digit zero and the small letter z. -/
theorem toNat_of_isNameChar {c : Char} (h : isNameChar c = true) :
    48 ≤ c.toNat ∧ c.toNat ≤ 122 := by
  unfold isNameChar Char.isAlphanum Char.isAlpha Char.isUpper Char.isLower Char.isDigit at h
  simp only [Bool.or_eq_true, Bool.and_eq_true, decide_eq_true_eq, beq_iff_eq,
    UInt32.le_iff_toNat_le, ge_iff_le] at h
  rcases h with ((h | h) | h) | rfl
  · have h₁ : 65 ≤ c.toNat := h.1
    have h₂ : c.toNat ≤ 90 := h.2
    omega
  · have h₁ : 97 ≤ c.toNat := h.1
    have h₂ : c.toNat ≤ 122 := h.2
    omega
  · have h₁ : 48 ≤ c.toNat := h.1
    have h₂ : c.toNat ≤ 57 := h.2
    omega
  · decide

/-- Capital letters lie before the small ones. -/
theorem toNat_toLower (c : Char) :
    c.toLower.toNat = if 65 ≤ c.toNat ∧ c.toNat ≤ 90 then c.toNat + 32 else c.toNat := by
  unfold Char.toLower
  split
  · next h =>
    have hle : c.val.toNat ≤ 90 := h.2
    have hadd : (c.val + ('a'.val - 'A'.val)).toNat = (c.val.toNat + 32) % 2 ^ 32 :=
      UInt32.toNat_add _ _
    rw [if_pos (show 65 ≤ c.toNat ∧ c.toNat ≤ 90 from h)]
    show (c.val + ('a'.val - 'A'.val)).toNat = c.val.toNat + 32
    omega
  · next h => rw [if_neg (show ¬ (65 ≤ c.toNat ∧ c.toNat ≤ 90) from h)]

theorem toNat_le_toLower (c : Char) : c.toNat ≤ c.toLower.toNat := by
  rw [toNat_toLower]
  split <;> omega

theorem isBlank_of_isNameChar {c : Char} (h : isNameChar c = true) : isBlank c = false := by
  obtain ⟨h₁, h₂⟩ := toNat_of_isNameChar h
  simp only [isBlank, Bool.or_eq_false_iff, Bool.and_eq_false_iff, decide_eq_false_iff_not,
    beq_eq_false_iff_ne]
  omega

/-- On name characters the two ways to fold case agree. -/
theorem foldCase_of_isNameChar {c : Char} (h : isNameChar c = true) : foldCase c = c.toLower := by
  have hs : c ≠ '\u017f' := by
    intro hc
    exact absurd (toNat_of_isNameChar (hc ▸ h)) (by decide)
  have hk : c ≠ '\u212a' := by
    intro hc
    exact absurd (toNat_of_isNameChar (hc ▸ h)) (by decide)
  rw [foldCase, if_neg hs, if_neg hk]

theorem toLower_ne_space {c : Char} (h : isNameChar c = true) : c.toLower ≠ ' ' := by
  intro hc
  have hname := (toNat_of_isNameChar h).1
  have hlower := toNat_le_toLower c
  rw [hc, show ' '.toNat = 32 from rfl] at hlower
  omega

theorem map_foldCase {n word : List Char} (hn : ∀ c ∈ n, isNameChar c = true)
    (h : isPhrase word n = false) : n.map foldCase ≠ word := by
  rw [List.map_congr_left fun c hc => foldCase_of_isNameChar (hn c hc)]
  exact beq_eq_false_iff_ne.1 h

theorem map_foldCase_of_isPhrase {n word : List Char} (hn : ∀ c ∈ n, isNameChar c = true)
    (h : isPhrase word n = true) : n.map foldCase = word := by
  rw [List.map_congr_left fun c hc => foldCase_of_isNameChar (hn c hc)]
  exact beq_iff_eq.1 h

theorem trimmed_of_isNameChar {n : List Char} (hn : ∀ c ∈ n, isNameChar c = true) : Trimmed n :=
  trimmed_of_forall fun c hc => isBlank_of_isNameChar (hn c hc)

end Name

namespace Text

/-- The blanks by number. -/
def blankCodes : List Nat :=
  [9, 10, 11, 12, 13, 0x20, 0x85, 0xA0, 0x1680, 0x2000, 0x2001, 0x2002, 0x2003, 0x2004, 0x2005,
    0x2006, 0x2007, 0x2008, 0x2009, 0x200A, 0x2028, 0x2029, 0x202F, 0x205F, 0x3000]

theorem toNat_mem_blankCodes {c : Char} (h : isBlank c = true) : c.toNat ∈ blankCodes := by
  simp only [isBlank, Bool.or_eq_true, Bool.and_eq_true, decide_eq_true_eq, beq_iff_eq] at h
  simp only [blankCodes, List.mem_cons, List.not_mem_nil, or_false]
  omega

theorem isBlank_toLower (c : Char) : isBlank c.toLower = isBlank c := by
  rw [Bool.eq_iff_iff]
  simp only [isBlank, Name.toNat_toLower, Bool.or_eq_true, Bool.and_eq_true, decide_eq_true_eq,
    beq_iff_eq]
  split <;> omega

theorem isWordChar_of_isBlank {c : Char} (h : isBlank c = true) : isWordChar c = false := by
  have hall : ∀ n ∈ blankCodes, isWordChar (Char.ofNat n) = false := by decide +kernel
  rw [← Char.ofNat_toNat c]
  exact hall _ (toNat_mem_blankCodes h)

theorem foldCase_of_not_word {c : Char} (h : isWordChar c = false) : foldCase c = c := by
  have hs : c ≠ '\u017f' := by
    rintro rfl
    exact absurd h (by decide +kernel)
  have hk : c ≠ '\u212a' := by
    rintro rfl
    exact absurd h (by decide +kernel)
  have hu : c.isUpper = false := by
    unfold isWordChar Char.isAlphanum Char.isAlpha at h
    simp only [Bool.or_eq_false_iff] at h
    exact h.1.1.1.1
  have hn : ¬ (c.val ≥ 'A'.val ∧ c.val ≤ 'Z'.val) := of_decide_eq_false hu
  unfold foldCase Char.toLower
  rw [if_neg hs, if_neg hk, dif_neg hn]

/-- A phrase of two parts with a separator between them is read part by part. -/
theorem strip?_append_cons {fold : Char → Char} {b : Char} (hb : fold b = b)
    {first n : List Char} (hf : b ∉ first) (hn : ∀ c ∈ n, fold c ≠ b) (second s : List Char) :
    strip? fold (first ++ b :: second) (n ++ b :: s) =
      if n.map fold = first then strip? fold second s else none := by
  induction n generalizing first with
  | nil =>
    cases first with
    | nil => simp [strip?, hb]
    | cons p first =>
      have hp : b ≠ p := fun e => hf (e ▸ List.mem_cons_self)
      simp [strip?, hb, hp]
  | cons c n ih =>
    cases first with
    | nil => simp [strip?, hn c List.mem_cons_self]
    | cons p first =>
      rw [List.cons_append, List.cons_append, strip?, List.map_cons,
        ih (fun h => hf (List.mem_cons_of_mem _ h)) fun d hd => hn d (List.mem_cons_of_mem _ hd)]
      by_cases hc : fold c = p
      · rw [if_pos hc]
        simp only [List.cons.injEq, hc, true_and]
      · rw [if_neg hc, if_neg fun h => hc (List.cons.inj h).1]

section Keyword

variable {α : Type} {word : List Char} {accept : List Char → Option α}

theorem ne_of_not_word (hw : ∀ p ∈ word, isWordChar p = true) {c p : Char}
    (hc : isWordChar c = false) (hp : p ∈ word) : foldCase c ≠ p := by
  rw [foldCase_of_not_word hc]
  rintro rfl
  rw [hw _ hp] at hc
  exact absurd hc (by decide)

theorem isBlank_of_mem_keyword (hw : ∀ p ∈ word, isWordChar p = true) {n : List Char}
    (h : n.map foldCase = word) {c : Char} (hc : c ∈ n) : isBlank c = false := by
  cases hb : isBlank c with
  | false => rfl
  | true =>
    have hm : foldCase c ∈ word := h ▸ List.mem_map_of_mem hc
    exact absurd rfl (ne_of_not_word hw (isWordChar_of_isBlank hb) hm)

theorem trimStart_keyword (hne : word ≠ []) (hw : ∀ p ∈ word, isWordChar p = true) {n : List Char}
    (h : n.map foldCase = word) (s : List Char) : trimStart (n ++ s) = n ++ s := by
  cases n with
  | nil => exact absurd h.symm hne
  | cons c n =>
    exact trimStart_cons_of_not_blank (isBlank_of_mem_keyword hw h List.mem_cons_self) _

/-- A run of word characters with a boundary behind it is the keyword or holds none at its start. -/
theorem stripWord?_append (hw : ∀ p ∈ word, isWordChar p = true) {n s : List Char}
    (hn : ∀ c ∈ n, isWordChar c = true) (hs : atBoundary s = true) :
    stripWord? word (n ++ s) = if n.map foldCase = word then some s else none := by
  induction n generalizing word with
  | nil =>
    cases word with
    | nil => simp [stripWord?, strip?, hs]
    | cons p ps =>
      cases s with
      | nil => simp [stripWord?, strip?]
      | cons c s =>
        have hc : isWordChar c = false := by simpa [atBoundary] using hs
        simp [stripWord?, strip?, ne_of_not_word hw hc List.mem_cons_self]
  | cons c n ih =>
    cases word with
    | nil => simp [stripWord?, strip?, atBoundary, hn c List.mem_cons_self]
    | cons p ps =>
      have := ih (fun q hq => hw q (List.mem_cons_of_mem _ hq))
        fun d hd => hn d (List.mem_cons_of_mem _ hd)
      rw [stripWord?] at this ⊢
      rw [List.cons_append, strip?, List.map_cons]
      by_cases hc : foldCase c = p
      · rw [if_pos hc, this]
        simp only [List.cons.injEq, hc, true_and]
      · rw [if_neg hc, if_neg fun h => hc (List.cons.inj h).1, Option.filter_none]

theorem stripWord?_of_not_word (hne : word ≠ []) (hw : ∀ p ∈ word, isWordChar p = true)
    {c : Char} (hc : isWordChar c = false) (s : List Char) : stripWord? word (c :: s) = none := by
  have hs : atBoundary (c :: s) = true := by rw [atBoundary, hc, Bool.not_false]
  rw [← List.nil_append (c :: s), stripWord?_append hw (by simp) hs, List.map_nil,
    if_neg hne.symm]

/-- No keyword starts within a word. -/
theorem findWord?_inWord {n : List Char} (hn : ∀ c ∈ n, isWordChar c = true) (s : List Char) :
    findWord? word accept true (n ++ s) =
      (findWord? word accept true s).map fun (before, a) => (n ++ before, a) := by
  induction n with
  | nil => simp
  | cons c n ih =>
    rw [List.cons_append, findWord?, if_pos rfl, hn c List.mem_cons_self,
      ih fun d hd => hn d (List.mem_cons_of_mem _ hd), Option.map_map]
    rfl

theorem findWord?_cons_of_not_word (hne : word ≠ []) (hw : ∀ p ∈ word, isWordChar p = true)
    {c : Char} (hc : isWordChar c = false) (inWord : Bool) (s : List Char) :
    findWord? word accept inWord (c :: s) =
      (findWord? word accept false s).map fun (before, a) => (c :: before, a) := by
  rw [findWord?, stripWord?_of_not_word hne hw hc, Option.bind_none, ite_self, hc]

/-- The search passes over a name that is not the keyword, or behind which nothing is accepted. -/
theorem findWord?_name (hne : word ≠ []) (hw : ∀ p ∈ word, isWordChar p = true) {n : List Char}
    (hn : ∀ c ∈ n, isWordChar c = true) {c : Char} (hc : isWordChar c = false) {s : List Char}
    (h : n.map foldCase = word → accept (c :: s) = none) :
    findWord? word accept false (n ++ c :: s) =
      (findWord? word accept false s).map fun (before, a) => (n ++ c :: before, a) := by
  cases n with
  | nil => exact findWord?_cons_of_not_word hne hw hc false s
  | cons d n =>
    have hs : atBoundary (c :: s) = true := by rw [atBoundary, hc, Bool.not_false]
    have hnone : (stripWord? word (d :: n ++ c :: s)).bind accept = none := by
      rw [stripWord?_append hw hn hs]
      split
      · next he => exact h he
      · rfl
    rw [List.cons_append] at hnone ⊢
    rw [findWord?, if_neg (by decide), hnone, hn d List.mem_cons_self]
    simp only
    rw [findWord?_inWord (fun e he => hn e (List.mem_cons_of_mem _ he)),
      findWord?_cons_of_not_word hne hw hc, Option.map_map, Option.map_map]
    rfl

/-- A run of word characters that is not the keyword holds none. -/
theorem findWord?_of_ne (hw : ∀ p ∈ word, isWordChar p = true) {n : List Char}
    (hn : ∀ c ∈ n, isWordChar c = true) (h : n.map foldCase ≠ word) :
    findWord? word accept false n = none := by
  cases n with
  | nil => rfl
  | cons c n =>
    have hstrip : stripWord? word (c :: n) = none := by
      have := stripWord?_append hw hn (s := []) rfl
      rwa [List.append_nil, if_neg h] at this
    have hrest : findWord? word accept true n = none := by
      rw [← List.append_nil n, findWord?_inWord fun d hd => hn d (List.mem_cons_of_mem c hd)]
      rfl
    rw [findWord?, if_neg (by decide), hstrip, Option.bind_none, hn c List.mem_cons_self]
    simp only [hrest, Option.map_none]

theorem findWord?_keyword (hne : word ≠ []) {n s : List Char} (h : n.map foldCase = word)
    (hs : atBoundary s = true) {a : α} (ha : accept s = some a) :
    findWord? word accept false (n ++ s) = some ([], a) := by
  have hstrip : stripWord? word (n ++ s) = some s :=
    stripWord?_eq_some_iff.2 ⟨strip?_append h s, hs⟩
  cases n with
  | nil => exact absurd h.symm hne
  | cons c n =>
    rw [List.cons_append] at hstrip ⊢
    rw [findWord?, if_neg (by decide), hstrip, Option.bind_some, ha]

end Keyword

end Text
end TableShell
