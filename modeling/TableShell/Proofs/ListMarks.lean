import TableShell.Statement.Insertion
import TableShell.Proofs.FieldLists
import TableShell.Proofs.Keywords

/-
Where the column list of an insertion ends.

The list runs as far as a closing parenthesis with the keyword `values` behind it allows. Such a
mark may also stand inside a quoted text, since the search knows nothing of quotes: quoting a text
neither makes a mark nor breaks one.
-/
namespace TableShell
namespace Insertion

open Text

/-- A closing parenthesis stands in the text, and behind it blanks and the whole word `values`. -/
def Marked (s : List Char) : Prop :=
  ∃ a blanks word r, s = a ++ ')' :: (blanks ++ (word ++ r)) ∧
    (∀ c ∈ blanks, isBlank c = true) ∧ word.map foldCase = "values".toList ∧ atBoundary r = true

/-- The keyword comes first but for blanks. -/
def opens (s : List Char) : Bool :=
  (behindValues? s).isSome

/-- The search for a mark. -/
def marked : List Char → Bool
  | [] => false
  | c :: s => (c == ')' && opens s) || marked s

theorem isWordChar_of_mem_values : ∀ p ∈ "values".toList, isWordChar p = true :=
  List.all_eq_true.1 (by decide +kernel)

theorem behindValues?_eq_some_iff {s behind : List Char} : behindValues? s = some behind ↔
    ∃ blanks word, s = blanks ++ (word ++ behind) ∧ (∀ c ∈ blanks, isBlank c = true) ∧
      word.map foldCase = "values".toList ∧ atBoundary behind = true := by
  constructor
  · intro h
    obtain ⟨hs, hb⟩ := stripWord?_eq_some_iff.1 h
    obtain ⟨word, hw, hs⟩ := strip?_eq_some_iff.1 hs
    refine ⟨s.takeWhile isBlank, word, ?_, ?_, hw, hb⟩
    · rw [← hs]
      exact List.takeWhile_append_dropWhile.symm
    · exact fun c hc => List.all_eq_true.1 List.all_takeWhile c hc
  · intro h
    obtain ⟨blanks, word, rfl, hb, hw, hr⟩ := h
    rw [behindValues?, trimStart_append hb,
      trimStart_keyword (by decide) isWordChar_of_mem_values hw,
      stripWord?_eq_some_iff.2 ⟨strip?_append hw behind, hr⟩]

theorem opens_iff {s : List Char} : opens s = true ↔ ∃ blanks word r, s = blanks ++ (word ++ r) ∧
    (∀ c ∈ blanks, isBlank c = true) ∧ word.map foldCase = "values".toList ∧
      atBoundary r = true := by
  rw [opens, Option.isSome_iff_exists]
  simp only [behindValues?_eq_some_iff]
  constructor
  · intro h
    obtain ⟨r, blanks, word, h⟩ := h
    exact ⟨blanks, word, r, h⟩
  · intro h
    obtain ⟨blanks, word, r, h⟩ := h
    exact ⟨r, blanks, word, h⟩

theorem marked_iff {s : List Char} : marked s = true ↔ Marked s := by
  induction s with
  | nil => simp [marked, Marked]
  | cons c s ih =>
    rw [marked, Bool.or_eq_true, Bool.and_eq_true, beq_iff_eq, ih, opens_iff]
    constructor
    · intro h
      obtain ⟨rfl, blanks, word, r, hs, h⟩ | ⟨a, blanks, word, r, hs, h⟩ := h
      · exact ⟨[], blanks, word, r, by rw [hs, List.nil_append], h⟩
      · exact ⟨c :: a, blanks, word, r, by rw [hs, List.cons_append], h⟩
    · intro h
      obtain ⟨a, blanks, word, r, hs, h⟩ := h
      cases a with
      | nil => exact Or.inl ⟨(List.cons.inj hs).1, blanks, word, r, (List.cons.inj hs).2, h⟩
      | cons d a => exact Or.inr ⟨a, blanks, word, r, (List.cons.inj hs).2, h⟩

/-! ### Separators

A character that is neither a word character nor a blank stands in no keyword and in none of the
blanks before it. -/

theorem stripWord?_append_cons {word : List Char} (hw : ∀ p ∈ word, isWordChar p = true)
    {q : Char} (hq : isWordChar q = false) (s r : List Char) :
    stripWord? word (s ++ q :: r) = (stripWord? word s).map (· ++ q :: r) := by
  simp only [stripWord?]
  induction s generalizing word with
  | nil =>
    cases word with
    | nil => simp [strip?, atBoundary, hq, Option.filter_some]
    | cons p ps => simp [strip?, ne_of_not_word hw hq List.mem_cons_self]
  | cons c s ih =>
    cases word with
    | nil =>
      by_cases hc : isWordChar c = true <;> simp [strip?, atBoundary, hc, Option.filter_some]
    | cons p ps =>
      rw [List.cons_append, strip?, strip?]
      split
      · exact ih fun d hd => hw d (List.mem_cons_of_mem _ hd)
      · rfl

theorem behindValues?_append_cons {q : Char} (hq : isWordChar q = false) (hb : isBlank q = false)
    (s r : List Char) : behindValues? (s ++ q :: r) = (behindValues? s).map (· ++ q :: r) := by
  rw [behindValues?, behindValues?, trimStart_append_cons hb]
  exact stripWord?_append_cons isWordChar_of_mem_values hq _ r

theorem opens_append {q : Char} (hq : isWordChar q = false) (hb : isBlank q = false)
    (s r : List Char) : opens (s ++ q :: r) = opens s := by
  rw [opens, opens, behindValues?_append_cons hq hb, Option.isSome_map]

theorem marked_append {q : Char} (hq : isWordChar q = false) (hb : isBlank q = false)
    (s r : List Char) : marked (s ++ q :: r) = (marked s || marked (q :: r)) := by
  induction s with
  | nil => rfl
  | cons c s ih => rw [List.cons_append, marked, marked, ih, opens_append hq hb, Bool.or_assoc]

theorem marked_cons_of_ne {c : Char} (h : c ≠ ')') (s : List Char) :
    marked (c :: s) = marked s := by
  rw [marked, beq_eq_false_iff_ne.2 h, Bool.false_and, Bool.false_or]

theorem marked_append_of_not_mem {a : List Char} (h : ')' ∉ a) (s : List Char) :
    marked (a ++ s) = marked s := by
  induction a with
  | nil => rfl
  | cons c a ih =>
    rw [List.mem_cons, not_or] at h
    rw [List.cons_append, marked_cons_of_ne (Ne.symm h.1), ih h.2]

/-! ### Quoted texts -/

open Fields

theorem isWordChar_quoteChar : isWordChar quoteChar = false := by
  decide

theorem isSome_stripWord?_doubled {word : List Char} (hw : ∀ p ∈ word, isWordChar p = true)
    (s : List Char) : (stripWord? word (doubled s)).isSome = (stripWord? word s).isSome := by
  simp only [stripWord?]
  induction s generalizing word with
  | nil => rfl
  | cons c s ih =>
    by_cases hc : c = quoteChar
    · subst hc
      rw [doubled_quoteChar]
      cases word with
      | nil => rfl
      | cons p ps =>
        have hp := ne_of_not_word hw isWordChar_quoteChar List.mem_cons_self
        rw [strip?, strip?, if_neg hp, if_neg hp]
    · rw [doubled_of_ne hc]
      cases word with
      | nil =>
        by_cases hc' : isWordChar c = true <;> simp [strip?, atBoundary, hc']
      | cons p ps =>
        rw [strip?, strip?]
        split
        · exact ih fun d hd => hw d (List.mem_cons_of_mem _ hd)
        · rfl

theorem opens_doubled (s : List Char) : opens (doubled s) = opens s := by
  rw [opens, opens, behindValues?, behindValues?, trimStart_doubled]
  exact isSome_stripWord?_doubled isWordChar_of_mem_values _

theorem marked_doubled (s : List Char) : marked (doubled s) = marked s := by
  induction s with
  | nil => rfl
  | cons c s ih =>
    by_cases hc : c = quoteChar
    · subst hc
      have hne : quoteChar ≠ ')' := by decide
      rw [doubled_quoteChar, marked_cons_of_ne hne, marked_cons_of_ne hne,
        marked_cons_of_ne hne, ih]
    · rw [doubled_of_ne hc, marked, marked, ih, opens_doubled]

theorem marked_quoted_append (s r : List Char) :
    marked (quoted s ++ r) = (marked s || marked r) := by
  have hne : quoteChar ≠ ')' := by decide
  rw [quoted, List.cons_append, List.cons_append, List.append_assoc, List.singleton_append,
    marked_cons_of_ne hne, marked_append isWordChar_quoteChar isBlank_quoteChar,
    marked_cons_of_ne hne, marked_doubled]

/-- A list of quoted texts is marked exactly where one of the texts is. -/
theorem marked_intercalate_quoted (ts : List (List Char)) :
    marked ([',', ' '].intercalate (ts.map quoted) ++ [')']) = ts.any marked := by
  induction ts with
  | nil => decide
  | cons t ts ih =>
    cases ts with
    | nil =>
      have hend : marked [')'] = false := by decide
      simp only [List.map_cons, List.map_nil, List.intercalate_singleton, marked_quoted_append,
        hend, List.any_cons, List.any_nil]
    | cons t' ts =>
      simp only [List.map_cons] at ih ⊢
      rw [List.intercalate_cons_cons, List.append_assoc, List.append_assoc, marked_quoted_append,
        marked_append_of_not_mem (by decide), ih, List.any_cons, List.any_cons, List.any_cons]

/-! ### The searches for the list -/

theorem longest?_append {a b list : List Char} (ha : '\n' ∉ a) (h : longest? b = some list) :
    longest? (a ++ b) = some (a ++ list) := by
  induction a with
  | nil => exact h
  | cons c a ih =>
    rw [List.mem_cons, not_or] at ha
    rw [List.cons_append, longest?, if_neg (Ne.symm ha.1), ih ha.2]
    rfl

theorem longest?_eq_none_iff {s : List Char} (hs : '\n' ∉ s) :
    longest? s = none ↔ marked s = false := by
  induction s with
  | nil => simp [longest?, marked]
  | cons c s ih =>
    rw [List.mem_cons, not_or] at hs
    rw [longest?, if_neg (Ne.symm hs.1), marked, Bool.or_eq_false_iff, ← ih hs.2]
    cases longest? s with
    | some list => simp
    | none => simp [opens]

theorem closes_append {a b : List Char} (ha : '\n' ∉ a)
    (h : ((behindValues? b).bind lastList?).isSome = true) : closes (a ++ ')' :: b) = true := by
  induction a with
  | nil => rw [List.nil_append, closes, h, Bool.and_true, beq_self_eq_true, Bool.true_or]
  | cons c a ih =>
    rw [List.mem_cons, not_or] at ha
    rw [List.cons_append, closes, ih ha.2, Bool.and_true, bne_iff_ne.2 (Ne.symm ha.1),
      Bool.or_true]

end Insertion
end TableShell
