import TableShell.Text.Blank
import TableShell.Text.Fields

/-
Trimming and quoting of texts.

Quoting doubles the quotes of a text and nothing else: it keeps the ends of the text and its blanks,
and it changes the length by the number of quotes.
-/
namespace TableShell
namespace Text

/-! ### Trimming -/

theorem trimStart_append_cons {c : Char} (hc : isBlank c = false) (s r : List Char) :
    trimStart (s ++ c :: r) = trimStart s ++ c :: r := by
  induction s with
  | nil => exact trimStart_cons_of_not_blank hc r
  | cons d s ih =>
    cases hd : isBlank d with
    | true => rw [List.cons_append, trimStart_cons_of_blank hd, trimStart_cons_of_blank hd, ih]
    | false =>
      rw [List.cons_append, trimStart_cons_of_not_blank hd, trimStart_cons_of_not_blank hd,
        List.cons_append]

theorem exists_trimStart_append (s : List Char) :
    ∃ w, (∀ c ∈ w, isBlank c = true) ∧ trimStart s = trim s ++ w := by
  refine ⟨((trimStart s).reverse.takeWhile isBlank).reverse, fun c hc => ?_, ?_⟩
  · exact List.all_eq_true.1 List.all_takeWhile c (List.mem_reverse.1 hc)
  · rw [trim, trimEnd, ← List.reverse_append, List.takeWhile_append_dropWhile, List.reverse_reverse]

/-- Blanks stand on both sides of what trimming leaves. -/
theorem exists_append_trim (s : List Char) : ∃ a b, (∀ c ∈ a, isBlank c = true) ∧
    (∀ c ∈ b, isBlank c = true) ∧ s = a ++ trim s ++ b := by
  obtain ⟨b, hb, hend⟩ := exists_trimStart_append s
  have hstart : s = s.takeWhile isBlank ++ trimStart s := List.takeWhile_append_dropWhile.symm
  refine ⟨s.takeWhile isBlank, b, ?_, hb, ?_⟩
  · exact fun c hc => List.all_eq_true.1 List.all_takeWhile c hc
  · rw [List.append_assoc, ← hend]
    exact hstart

theorem trimmed_iff {s : List Char} : Trimmed s ↔ trim s = s :=
  ⟨trim_eq_self, fun h => h ▸ trimmed_trim s⟩

theorem not_mem_of_blank {c : Char} (hc : isBlank c = false) {w : List Char}
    (hw : ∀ d ∈ w, isBlank d = true) : c ∉ w := by
  intro h
  rw [hw c h] at hc
  exact absurd hc (by decide)

theorem mem_trim {c : Char} (hc : isBlank c = false) {s : List Char} (h : c ∈ s) : c ∈ trim s := by
  obtain ⟨a, b, ha, hb, hs⟩ := exists_append_trim s
  rw [hs, List.append_assoc, List.mem_append, List.mem_append] at h
  rcases h with h | h | h
  · exact absurd (ha c h) (by rw [hc]; decide)
  · exact h
  · exact absurd (hb c h) (by rw [hc]; decide)

theorem trim_append_blank {n : List Char} (hne : n ≠ []) (hn : Trimmed n) {w : List Char}
    (hw : ∀ c ∈ w, isBlank c = true) : trim (n ++ w) = n := by
  obtain ⟨c, s, rfl⟩ := List.exists_cons_of_ne_nil hne
  rw [trim, List.cons_append, trimStart_cons_of_not_blank (hn.1 c rfl), ← List.cons_append,
    trimEnd_append hw, trimEnd_eq_self hn.2]

def trimmed (s : String) : String :=
  String.ofList (trim s.toList)

theorem trimOf_append {p : Char → Bool} {a b : List Char} (ha : ∀ c ∈ a, p c = true)
    (hb : ∀ c ∈ b, p c = true) (s : List Char) : trimOf p (a ++ s ++ b) = trimOf p s := by
  have hb' : ∀ c ∈ b.reverse, p c = true := fun c hc => hb c (List.mem_reverse.1 hc)
  rw [trimOf, trimOf, List.append_assoc, List.dropWhile_append_of_pos ha, List.dropWhile_append]
  split
  · next h =>
    have hdrop : (b ++ []).dropWhile p = [] := List.dropWhile_append_of_pos hb
    rw [List.append_nil] at hdrop
    rw [List.isEmpty_iff.1 h, hdrop]
  · rw [List.reverse_append, List.dropWhile_append_of_pos hb']

/-- Blanks at the ends do not matter to trimming. -/
theorem trim_between {a b : List Char} (ha : ∀ c ∈ a, isBlank c = true)
    (hb : ∀ c ∈ b, isBlank c = true) (s : List Char) : trim (a ++ s ++ b) = trim s := by
  rw [← trimOf_isBlank, ← trimOf_isBlank, trimOf_append ha hb]

theorem trim_append {w : List Char} (hw : ∀ c ∈ w, isBlank c = true) (s : List Char) :
    trim (s ++ w) = trim s :=
  trim_between (a := []) (List.forall_mem_nil _) hw s

theorem dropWhile_eq_self {p : Char → Bool} {s : List Char}
    (h : ∀ c, s.head? = some c → p c = false) : s.dropWhile p = s := by
  cases s with
  | nil => rfl
  | cons c s => rw [List.dropWhile_cons, if_neg (by rw [h c rfl]; decide)]

theorem trimOf_eq_self {p : Char → Bool} {s : List Char} (hh : ∀ c, s.head? = some c → p c = false)
    (hl : ∀ c, s.getLast? = some c → p c = false) : trimOf p s = s := by
  rw [trimOf, dropWhile_eq_self hh, dropWhile_eq_self (by simpa only [List.head?_reverse] using hl),
    List.reverse_reverse]

theorem getLast?_trimOf {p : Char → Bool} {s : List Char} {c : Char}
    (h : (trimOf p s).getLast? = some c) : p c = false := by
  rw [trimOf, List.getLast?_reverse] at h
  have := List.head?_dropWhile_not p (s.dropWhile p).reverse
  rw [h] at this
  simpa using this

theorem head?_trimOf {p : Char → Bool} {s : List Char} {c : Char}
    (h : (trimOf p s).head? = some c) : p c = false := by
  obtain ⟨t, ht⟩ : trimOf p s <+: s.dropWhile p := by
    rw [trimOf, ← List.reverse_suffix, List.reverse_reverse]
    exact List.dropWhile_suffix p
  have := List.head?_dropWhile_not p s
  rw [← ht, List.head?_append, h] at this
  simpa using this

/-! ### Quoting -/

/-- A text as a quoted literal. -/
def literal (s : String) : String :=
  String.ofList (Fields.quoted s.toList)

namespace Fields

theorem isBlank_quoteChar : isBlank quoteChar = false := by
  decide

theorem doubled_of_ne {c : Char} (h : c ≠ quoteChar) (s : List Char) :
    doubled (c :: s) = c :: doubled s := by
  rw [doubled, if_neg h]

theorem doubled_quoteChar (s : List Char) :
    doubled (quoteChar :: s) = quoteChar :: quoteChar :: doubled s := by
  rw [doubled, if_pos rfl]

theorem mem_doubled {c : Char} {s : List Char} : c ∈ doubled s ↔ c ∈ s := by
  induction s with
  | nil => rfl
  | cons d s ih =>
    rw [doubled]
    split
    · simp [ih]
    · simp [ih]

theorem not_mem_quoted {c : Char} (hc : c ≠ quoteChar) {s : List Char} (hs : c ∉ s) :
    c ∉ quoted s := by
  simp only [quoted, List.cons_append, List.mem_cons, List.mem_append, mem_doubled, hc, hs,
    List.not_mem_nil, or_self, not_false_eq_true]

theorem quoted_ne_nil (s : List Char) : quoted s ≠ [] :=
  List.cons_ne_nil _ _

theorem trimStart_doubled (s : List Char) : trimStart (doubled s) = doubled (trimStart s) := by
  induction s with
  | nil => rfl
  | cons c s ih =>
    by_cases hc : c = quoteChar
    · subst hc
      rw [trimStart_cons_of_not_blank isBlank_quoteChar, doubled_quoteChar,
        trimStart_cons_of_not_blank isBlank_quoteChar]
    · rw [doubled_of_ne hc]
      cases hb : isBlank c with
      | true => rw [trimStart_cons_of_blank hb, trimStart_cons_of_blank hb, ih]
      | false =>
        rw [trimStart_cons_of_not_blank hb, trimStart_cons_of_not_blank hb, doubled_of_ne hc]

theorem doubled_append (s t : List Char) : doubled (s ++ t) = doubled s ++ doubled t := by
  induction s with
  | nil => rfl
  | cons c s ih =>
    rw [List.cons_append, doubled, doubled, ih]
    split <;> rfl

theorem doubled_eq_self {s : List Char} (h : quoteChar ∉ s) : doubled s = s := by
  induction s with
  | nil => rfl
  | cons c s ih =>
    rw [List.mem_cons, not_or] at h
    rw [doubled_of_ne (Ne.symm h.1), ih h.2]

theorem length_doubled (s : List Char) : (doubled s).length = s.length + s.count quoteChar := by
  induction s with
  | nil => rfl
  | cons c s ih =>
    rw [doubled]
    split
    · next hc => simp only [hc, List.length_cons, List.count_cons_self, ih]; omega
    · next hc => simp only [List.length_cons, List.count_cons_of_ne hc, ih]; omega

theorem doubled_eq_self_iff {s : List Char} : doubled s = s ↔ quoteChar ∉ s := by
  refine ⟨fun h => ?_, doubled_eq_self⟩
  have hlen := length_doubled s
  rw [h] at hlen
  exact List.count_eq_zero.1 (by omega)

theorem head?_doubled (s : List Char) : (doubled s).head? = s.head? := by
  cases s with
  | nil => rfl
  | cons c s => rw [doubled]; split <;> rfl

theorem getLast?_doubled (s : List Char) : (doubled s).getLast? = s.getLast? := by
  rcases List.eq_nil_or_concat s with rfl | ⟨t, c, rfl⟩
  · rfl
  · rw [List.concat_eq_append, doubled_append, doubled, doubled]
    split <;> simp

end Fields
end Text
end TableShell
